import Pyrrha.Floodgate.Credit

/-!
What the operations of a downstream switch leave of its last send times and its timer. Every change
of a last send time starts the timer again for the earliest one, and it is given to whose counters
have changed.
-/

namespace Pyrrha
open Lib

namespace Floodgate

namespace Credit

variable {cfg : Config} {s t u : State} {dev dst key : ℕ}

/-- The entry that stands for a destination: in INGRESS mode an ingress has one. -/
def Config.entry (cfg : Config) (dst : ℕ) : ℕ := if cfg.ackMode = .switchIngressCredit then 0 else dst

/-- Bytes of `dst` that came from `dev` have been dequeued and not been returned. -/
def State.Uncredited (cfg : Config) (s : State) (dev dst : ℕ) : Prop :=
  if cfg.absolutePsn then s.lstAckPsn dev dst < s.nxtAckPsn dev dst
    else 0 < (s.credits dev dst).getD 0

/-! ### The scan -/

theorem mem_entries {entry : ℕ × ℕ} : entry ∈ cfg.entries ↔ entry.1 < switchScale ∧
    entry.2 < cfg.hostNum := by
  obtain ⟨i, j⟩ := entry
  simp [Config.entries]

/-- What holds of the last send times between two steps and while one runs. -/
structure State.Times (cfg : Config) (s : State) : Prop where
  past : ∀ dev dst, s.ingressLastTime dev dst ≤ s.now
  inside : ∀ dev dst, s.ingressLastTime dev dst ≠ 0 → dev < switchScale ∧ dst < cfg.hostNum
  column : ∀ dev dst, s.ingressLastTime dev dst ≠ 0 → cfg.entry dst = dst
  fresh : ∀ dev dst, s.ingressLastTime dev dst ≠ 0 → s.now ≤ s.ingressLastTime dev dst +
    microSeconds cfg.interval

/-- The timer is pending for the earliest last send time, if there is one. -/
def State.Armed (cfg : Config) (s : State) : Prop :=
  (∀ entry, s.entryTime entry = 0) ∧ s.creditTimer = none ∨
    ∃ entry, IsEarliest s.entryTime entry ∧
      s.creditTimer = some ⟨s.entryTime entry + microSeconds cfg.interval, entry.1, entry.2⟩

theorem times_congr (times : s.Times cfg) (now : t.now = s.now)
    (lastTime : t.ingressLastTime = s.ingressLastTime) : t.Times cfg := by
  constructor
  · intro dev dst
    rw [now, lastTime]
    exact times.past dev dst
  · rw [lastTime]
    exact times.inside
  · rw [lastTime]
    exact times.column
  · intro dev dst
    rw [now, lastTime]
    exact times.fresh dev dst

theorem armed_congr (armed : s.Armed cfg) (lastTime : t.ingressLastTime = s.ingressLastTime)
    (timer : t.creditTimer = s.creditTimer) : t.Armed cfg := by
  have same : t.entryTime = s.entryTime := by
    unfold State.entryTime
    rw [lastTime]
  unfold State.Armed
  rw [same, timer]
  exact armed

theorem resetCreditTimer_armed (on : cfg.interval ≠ 0) (times : s.Times cfg) :
    ∃ timer, s.resetCreditTimer cfg = .ok { s with creditTimer := timer } ∧
      { s with creditTimer := timer }.Armed cfg := by
  have complete : ∀ entry, s.entryTime entry ≠ 0 → entry ∈ cfg.entries := by
    intro entry set
    exact mem_entries.mpr (times.inside entry.1 entry.2 set)
  have below : ∀ entry, s.entryTime entry < s.now + 10 ^ 9 := by
    intro entry
    have past := times.past entry.1 entry.2
    unfold State.entryTime
    omega
  unfold State.resetCreditTimer
  rw [if_neg on]
  rcases scanEarliest_spec complete below with ⟨unset, none⟩ | ⟨entry, first, found⟩
  · cases scan : scanEarliest s.entryTime (s.now + 10 ^ 9) cfg.entries with
    | mk time best =>
      rw [scan] at none
      subst none
      exact ⟨none, rfl, .inl ⟨unset, rfl⟩⟩
  · rw [found]
    have early : s.now ≤ s.entryTime entry + microSeconds cfg.interval :=
      times.fresh entry.1 entry.2 first.set
    have due : s.now + (s.entryTime entry + microSeconds cfg.interval - s.now) =
        s.entryTime entry + microSeconds cfg.interval := Nat.add_sub_of_le early
    refine ⟨some ⟨s.entryTime entry + microSeconds cfg.interval, entry.1, entry.2⟩, ?_,
      .inr ⟨entry, first, rfl⟩⟩
    dsimp only
    rw [if_pos early, due]

/-! ### What a send leaves

A send changes the counters of one entry and then its last send time. -/

/-- Only counters that `key` stands for, in the row of `dev`, are others in `t`. -/
structure State.Recounted (cfg : Config) (dev key : ℕ) (s t : State) : Prop where
  now : t.now = s.now
  lastTime : t.ingressLastTime = s.ingressLastTime
  timer : t.creditTimer = s.creditTimer
  others : ∀ x y, ¬(x = dev ∧ cfg.entry y = key) →
    t.lstAckPsn x y = s.lstAckPsn x y ∧ t.nxtAckPsn x y = s.nxtAckPsn x y ∧
      t.credits x y = s.credits x y

/-- From `s` on last send times are kept or set, and those whose counters have grown have one in
`t`. -/
structure State.Moves (cfg : Config) (s t : State) : Prop where
  times : t.Times cfg
  armed : t.Armed cfg
  kept : ∀ dev dst, s.ingressLastTime dev dst ≠ 0 → t.ingressLastTime dev dst ≠ 0
  covered : ∀ dev dst, t.Uncredited cfg dev dst →
    s.Uncredited cfg dev dst ∨ t.ingressLastTime dev (cfg.entry dst) ≠ 0

/-- The same, at one moment. -/
structure State.Keeps (cfg : Config) (s t : State) : Prop extends State.Moves cfg s t where
  now : t.now = s.now

/-- The asserts besides that of `ResetCreditTimer`. -/
def Assert.Other (e : Assert) : Prop := e ≠ .resetCreditTimer

theorem recounted_refl : s.Recounted cfg dev key s := ⟨rfl, rfl, rfl, fun _ _ _ => ⟨rfl, rfl, rfl⟩⟩

theorem recounted_uncredited (h : s.Recounted cfg dev key t) {x y : ℕ}
    (credits : t.Uncredited cfg x y) : s.Uncredited cfg x y ∨ x = dev ∧ cfg.entry y = key := by
  by_cases here : x = dev ∧ cfg.entry y = key
  · exact .inr here
  · obtain ⟨lst, nxt, counter⟩ := h.others x y here
    unfold State.Uncredited at credits ⊢
    rw [lst, nxt, counter] at credits
    exact .inl credits

theorem keeps_refl (times : s.Times cfg) (armed : s.Armed cfg) : s.Keeps cfg s :=
  ⟨⟨times, armed, fun _ _ set => set, fun _ _ credits => .inl credits⟩, rfl⟩

theorem keeps_trans (first : s.Keeps cfg t) (second : t.Keeps cfg u) : s.Keeps cfg u := by
  refine ⟨⟨second.times, second.armed, ?_, fun x y credits => ?_⟩, second.now.trans first.now⟩
  · intro x y set
    exact second.kept x y (first.kept x y set)
  · rcases second.covered x y credits with before | set
    · exact (first.covered x y before).imp_right (second.kept x _)
    · exact .inr set

theorem keeps_recounted (times : s.Times cfg) (armed : s.Armed cfg)
    (recounted : s.Recounted cfg dev key t)
    (set : s.ingressLastTime dev key ≠ 0) : s.Keeps cfg t := by
  refine ⟨⟨times_congr times recounted.now recounted.lastTime,
    armed_congr armed recounted.lastTime recounted.timer, ?_, fun x y credits => ?_⟩, recounted.now⟩
  · intro x y
    rw [recounted.lastTime]
    exact id
  · rcases recounted_uncredited recounted credits with before | ⟨rfl, rfl⟩
    · exact .inl before
    · right
      rw [recounted.lastTime]
      exact set

theorem setLastTime_times (times : s.Times cfg) (row : dev < switchScale) (host : dst < cfg.hostNum)
    (column : cfg.entry dst = dst) : (s.setLastTime dev dst).Times cfg := by
  constructor
  · intro x y
    simp only [State.setLastTime, update₂_apply]
    split
    · exact Nat.le_refl _
    · exact times.past x y
  · intro x y set
    simp only [State.setLastTime, update₂_apply] at set
    split at set
    · rename_i here
      exact ⟨here.1 ▸ row, here.2 ▸ host⟩
    · exact times.inside x y set
  · intro x y set
    simp only [State.setLastTime, update₂_apply] at set
    split at set
    · rename_i here
      exact here.2 ▸ column
    · exact times.column x y set
  · intro x y set
    simp only [State.setLastTime, update₂_apply] at set ⊢
    split
    · exact Nat.le_add_right _ _
    · rename_i other
      rw [if_neg other] at set
      exact times.fresh x y set

theorem update_keeps (on : cfg.interval ≠ 0) (times : s.Times cfg) (start : 0 < s.now)
    (recounted : s.Recounted cfg dev dst t) (host : dst < cfg.hostNum)
    (column : cfg.entry dst = dst) :
    Outcome (fun u => s.Keeps cfg u ∧ u.ingressLastTime dev dst = s.now) Assert.Other
      (t.updateIngressLastSendTime cfg dev dst) := by
  have before := times_congr times recounted.now recounted.lastTime
  unfold State.updateIngressLastSendTime
  split
  · rename_i row
    have after := setLastTime_times before row host column
    obtain ⟨timer, call, armed⟩ := resetCreditTimer_armed on after
    have here : (t.setLastTime dev dst).ingressLastTime dev dst = s.now :=
      (update₂_same _ _ _ _).trans recounted.now
    have there : ∀ x y, ¬(x = dev ∧ y = dst) →
        (t.setLastTime dev dst).ingressLastTime x y = s.ingressLastTime x y := by
      intro x y other
      exact (update₂_of_ne _ _ other).trans (congrFun (congrFun recounted.lastTime x) y)
    rw [call]
    refine ⟨⟨⟨times_congr after rfl rfl, armed, fun x y set => ?_, fun x y credits => ?_⟩,
      recounted.now⟩, here⟩
    · by_cases same : x = dev ∧ y = dst
      · obtain ⟨rfl, rfl⟩ := same
        exact here.trans_ne start.ne'
      · exact (there x y same).trans_ne set
    · rcases recounted_uncredited recounted credits with old | ⟨rfl, same⟩
      · exact .inl old
      · right
        rw [same]
        exact here.trans_ne start.ne'
  · exact nofun

/-! ### The sends -/

theorem cleanIngressDstCreditCounter_recounted {ackPsn : ℕ} :
    Outcome (s.Recounted cfg dev (cfg.entry dst)) Assert.Other
      (s.cleanIngressDstCreditCounter cfg dev dst ackPsn) := by
  have elsewhere : ∀ x y, ¬(x = dev ∧ cfg.entry y = cfg.entry dst) → ¬(x = dev ∧ y = dst) :=
    fun x y other same => other ⟨same.1, congrArg cfg.entry same.2⟩
  unfold State.cleanIngressDstCreditCounter
  split
  · exact ⟨rfl, rfl, rfl, fun x y other => ⟨update₂_of_ne _ _ (elsewhere x y other), rfl, rfl⟩⟩
  · split
    · exact ⟨rfl, rfl, rfl, fun x y other => ⟨rfl, rfl, update₂_of_ne _ _ (elsewhere x y other)⟩⟩
    · exact nofun

theorem cleanIngressCreditCounter_recounted {acktag : ℕ → ℕ}
    (mode : cfg.ackMode = .switchIngressCredit) :
    Outcome (s.Recounted cfg dev 0) Assert.Other (s.cleanIngressCreditCounter cfg dev acktag) := by
  have elsewhere : ∀ x y, ¬(x = dev ∧ cfg.entry y = 0) → x ≠ dev :=
    fun x y other same => other ⟨same, if_pos mode⟩
  unfold State.cleanIngressCreditCounter
  split
  · split
    · exact ⟨rfl, rfl, rfl, fun x y other =>
        ⟨congrFun (Function.update_of_ne (elsewhere x y other) _ _) y, rfl, rfl⟩⟩
    · split
      · exact ⟨rfl, rfl, rfl, fun x y other =>
          ⟨rfl, rfl, congrFun (Function.update_of_ne (elsewhere x y other) _ _) y⟩⟩
      · split
        · exact ⟨rfl, rfl, rfl, fun x y other =>
            ⟨rfl, rfl, congrFun (Function.update_of_ne (elsewhere x y other) _ _) y⟩⟩
        · exact nofun
  · exact nofun

theorem sendAccSwitchACK_keeps {acktag : ℕ → ℕ} (on : cfg.interval ≠ 0) (times : s.Times cfg)
    (start : 0 < s.now) :
    Outcome (fun t => s.Keeps cfg t ∧ t.ingressLastTime dev 0 = s.now) Assert.Other
      (s.sendAccSwitchACK cfg dev acktag) := by
  unfold State.sendAccSwitchACK
  split
  · rename_i mode
    refine outcome_bind (cleanIngressCreditCounter_recounted mode) fun t recounted => ?_
    exact update_keeps on times start recounted cfg.hostNum_pos (if_pos mode)
  · exact nofun

theorem sendSwitchACK_keeps {size : ℕ} (on : cfg.interval ≠ 0) (times : s.Times cfg)
    (start : 0 < s.now) (host : dst < cfg.hostNum) :
    Outcome (fun t => s.Keeps cfg t ∧ t.ingressLastTime dev dst = s.now) Assert.Other
      (s.sendSwitchACK cfg dev dst size) := by
  unfold State.sendSwitchACK
  split
  · rename_i mode
    have column : cfg.entry dst = dst := if_neg (by simp [mode])
    refine outcome_bind cleanIngressDstCreditCounter_recounted fun t recounted => ?_
    rw [column] at recounted
    exact update_keeps on times start recounted host column
  · exact nofun

theorem getIngressDstCreditCounter_other :
    Outcome (fun _ => True) Assert.Other (s.getIngressDstCreditCounter cfg dev dst) := by
  unfold State.getIngressDstCreditCounter
  split
  · split
    · split
      · split
        · trivial
        · exact nofun
      · trivial
    · trivial
  · exact nofun

theorem checkIngressCreditCounter_other {th : ℕ} :
    Outcome (fun _ => True) Assert.Other (s.checkIngressCreditCounter cfg dev th) := by
  unfold State.checkIngressCreditCounter
  split
  · refine outcome_map (outcome_weaken (P := fun _ => True) ?_ fun _ _ => trivial)
    refine outcome_foldlM (fun i _ sum _ => ?_) trivial
    exact outcome_map getIngressDstCreditCounter_other
  · exact nofun

theorem sendIngressCredits_keeps (on : cfg.interval ≠ 0) (times : s.Times cfg) (start : 0 < s.now) :
    Outcome (fun t => s.Keeps cfg t ∧ t.ingressLastTime dev 0 = s.now) Assert.Other
      (s.sendIngressCredits cfg dev) := by
  have tag : Outcome (fun _ => True) Assert.Other (s.getSwitchACKTag cfg dev) := by
    unfold State.getSwitchACKTag
    split
    · trivial
    · exact nofun
  exact outcome_bind tag fun acktag _ => sendAccSwitchACK_keeps on times start

theorem keeps_countByteCredit (h : s.Keeps cfg t) : s.Keeps cfg t.countByteCredit :=
  ⟨⟨times_congr h.times rfl rfl, armed_congr h.armed rfl rfl, h.kept, h.covered⟩, h.now⟩

theorem keeps_countTimeoutCredit (h : s.Keeps cfg t) : s.Keeps cfg t.countTimeoutCredit :=
  ⟨⟨times_congr h.times rfl rfl, armed_congr h.armed rfl rfl, h.kept, h.covered⟩, h.now⟩

/-! ### Timeouts and dequeues -/

theorem creditTimeout_keeps (on : cfg.interval ≠ 0) (times : s.Times cfg)
    (set : s.ingressLastTime dev dst ≠ 0) :
    Outcome (fun t => s.Keeps cfg t ∧ t.ingressLastTime dev dst = s.now) Assert.Other
      (s.creditTimeout cfg dev dst) := by
  have start : 0 < s.now := Nat.lt_of_lt_of_le (Nat.pos_of_ne_zero set) (times.past dev dst)
  have host := (times.inside dev dst set).2
  have column := times.column dev dst set
  have again := @update_keeps cfg s s dev dst on times start recounted_refl host column
  unfold State.creditTimeout
  split
  · split
    · rename_i mode
      have first : dst = 0 := column.symm.trans (if_pos mode)
      subst first
      refine outcome_bind checkIngressCreditCounter_other fun due _ => ?_
      split
      · refine outcome_map (outcome_weaken (sendIngressCredits_keeps on times start) ?_)
        exact fun t sent => ⟨keeps_countTimeoutCredit sent.1, sent.2⟩
      · exact again
    · refine outcome_bind getIngressDstCreditCounter_other fun credit _ => ?_
      split
      · refine outcome_map (outcome_weaken (sendSwitchACK_keeps on times start host) ?_)
        exact fun t sent => ⟨keeps_countTimeoutCredit sent.1, sent.2⟩
      · exact again
  · exact nofun

theorem initLastTime_keeps (on : cfg.interval ≠ 0) (times : s.Times cfg) (armed : s.Armed cfg)
    (start : 0 < s.now) (recounted : s.Recounted cfg dev dst t) (host : dst < cfg.hostNum)
    (column : cfg.entry dst = dst) :
    Outcome (s.Keeps cfg) Assert.Other (t.initLastTime cfg dev dst) := by
  unfold State.initLastTime
  split
  · exact outcome_weaken (update_keeps on times start recounted host column) fun _ sent => sent.1
  · rename_i set
    rw [recounted.lastTime] at set
    exact keeps_recounted times armed recounted set

theorem sendCredits_keeps {th : ℕ} (on : cfg.interval ≠ 0) (times : s.Times cfg)
    (armed : s.Armed cfg) (start : 0 < s.now) (host : dst < cfg.hostNum) :
    Outcome (s.Keeps cfg) Assert.Other (s.sendCredits cfg th dst dev) := by
  have idle := keeps_refl times armed
  unfold State.sendCredits
  split
  · refine outcome_bind checkIngressCreditCounter_other fun due _ => ?_
    split
    · refine outcome_map (outcome_weaken (sendIngressCredits_keeps on times start) ?_)
      exact fun t sent => keeps_countByteCredit sent.1
    · exact idle
  · refine outcome_bind getIngressDstCreditCounter_other fun credit _ => ?_
    split
    · refine outcome_map (outcome_weaken (sendSwitchACK_keeps on times start host) ?_)
      exact fun t sent => keeps_countByteCredit sent.1
    · exact idle
  · exact idle

/-- The upstream whose counters have just changed is covered by the first look at it. -/
theorem checkUpstream_keeps (on : cfg.interval ≠ 0) (credit : cfg.ackMode ≠ .hostPerPacketAck)
    (times : s.Times cfg)
    (armed : s.Armed cfg) (start : 0 < s.now) (recounted : s.Recounted cfg dev (cfg.entry dst) t)
    (host : dst < cfg.hostNum) :
    Outcome (s.Keeps cfg) Assert.Other (t.checkUpstream cfg dst dev) := by
  have send : ∀ u, s.Keeps cfg u →
      Outcome (s.Keeps cfg) Assert.Other (u.sendCredits cfg cfg.byteCounter dst dev) := by
    intro u before
    have sent : Outcome (u.Keeps cfg) Assert.Other (u.sendCredits cfg cfg.byteCounter dst dev) :=
      sendCredits_keeps on before.times before.armed (before.now ▸ start) host
    exact outcome_weaken sent fun _ after => keeps_trans before after
  unfold State.checkUpstream
  split
  · rename_i mode
    have first : cfg.entry dst = 0 := if_pos mode
    rw [first] at recounted
    exact outcome_bind (initLastTime_keeps on times armed start recounted cfg.hostNum_pos
      (if_pos mode)) send
  · rename_i mode
    have column : cfg.entry dst = dst := if_neg (by simp [mode])
    rw [column] at recounted
    exact outcome_bind (initLastTime_keeps on times armed start recounted host column) send
  · rename_i mode
    exact absurd mode credit

theorem countDequeue_recounted {p : Dequeued cfg} :
    Outcome (s.Recounted cfg (cfg.creditId p) (cfg.entry p.dip)) Assert.Other
      (s.countDequeue cfg p) := by
  have elsewhere : ∀ x y, ¬(x = cfg.creditId p ∧ cfg.entry y = cfg.entry p.dip) →
      ¬(x = cfg.creditId p ∧ y = p.dip) :=
    fun x y other same => other ⟨same.1, congrArg cfg.entry same.2⟩
  unfold State.countDequeue
  split
  · split
    · exact ⟨rfl, rfl, rfl, fun x y other => ⟨rfl, update₂_of_ne _ _ (elsewhere x y other), rfl⟩⟩
    · exact nofun
  · unfold State.addCreditCounter
    split
    · exact ⟨rfl, rfl, rfl, fun x y other => ⟨rfl, rfl, update₂_of_ne _ _ (elsewhere x y other)⟩⟩
    · exact nofun

theorem upstreamNum_pos : 0 < cfg.upstreamNum := by
  unfold Config.upstreamNum Config.allUpstreams
  split
  · split
    · exact cfg.torNum_pos
    · exact cfg.deviceNum_pos
  · exact Nat.one_pos

/-- The loop over the upstream switches starts with the one the packet came from. -/
theorem checkUpstreams_keeps {n creditId : ℕ} {next : ℕ → ℕ} (on : cfg.interval ≠ 0)
    (credit : cfg.ackMode ≠ .hostPerPacketAck) (times : s.Times cfg) (armed : s.Armed cfg)
    (start : 0 < s.now)
    (recounted : s.Recounted cfg creditId (cfg.entry dst) t) (host : dst < cfg.hostNum)
    (some : 0 < n) : Outcome (s.Keeps cfg) Assert.Other
      ((List.iterate next creditId n).foldlM (State.checkUpstream cfg dst) t) := by
  obtain ⟨n, rfl⟩ := Nat.exists_eq_add_of_le' some
  rw [List.iterate, List.foldlM_cons]
  refine outcome_bind (checkUpstream_keeps on credit times armed start recounted host)
    fun u first => ?_
  refine outcome_foldlM (fun other _ b before => ?_) first
  have step : Outcome (b.Keeps cfg) Assert.Other (b.checkUpstream cfg dst other) :=
    checkUpstream_keeps on credit before.times before.armed (before.now ▸ start) recounted_refl host
  exact outcome_weaken step fun _ after => keeps_trans before after

theorem switchNotifyDequeue_keeps {p : Dequeued cfg} (on : cfg.interval ≠ 0)
    (credit : cfg.ackMode ≠ .hostPerPacketAck) (times : s.Times cfg) (armed : s.Armed cfg)
    (start : 0 < s.now) : Outcome (s.Keeps cfg) Assert.Other (s.switchNotifyDequeue cfg p) := by
  have idle := keeps_refl times armed
  unfold State.switchNotifyDequeue
  split
  · split
    · split
      · unfold State.creditDequeue
        refine outcome_bind countDequeue_recounted fun t recounted => ?_
        refine outcome_bind
          (checkUpstreams_keeps on credit times armed start recounted p.dip.isLt upstreamNum_pos)
          fun u sent => ?_
        -- with a timer nothing is left to the second loop
        unfold State.sendLeft
        rw [if_neg fun left => on left.2.2.1]
        exact sent
      · exact idle
    · exact nofun
  · exact idle

end Credit

end Floodgate

end Pyrrha

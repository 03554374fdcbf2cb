import Pyrrha.Floodgate.CreditTimer
import Pyrrha.Floodgate.WindowLedger

/-!
A switch as downstream together with the `SwitchACK`s that leave it. In the relative mode it forgets
no byte: what has come through a device and been dequeued is in the counters of that device, or in a
`SwitchACK` to it.
-/

namespace Pyrrha
open Lib

namespace Floodgate

namespace Credit

/-- A `SwitchACK` that leaves through `dev`, with the host its source address stands for. In INGRESS
mode it is an address of the switch, for which `hostIp2IdMap` has 0. -/
structure AckInFlight where
  dev : ℕ
  acktag : ℕ → ℕ
  dst : ℕ

/-- A switch as downstream, and the `SwitchACK`s that have left it and have not arrived. -/
structure Downstream where
  state : State := {}
  acks : List AckInFlight := []

namespace Downstream

/-! ### The functions that send -/

def sendAccSwitchACK (cfg : Config) (x : Downstream) (dev : ℕ) (acktag : ℕ → ℕ) :
    Checked Downstream :=
  (x.state.sendAccSwitchACK cfg dev acktag).map fun s => ⟨s, x.acks ++ [⟨dev, acktag, 0⟩]⟩

/-- `setAckedSize` sets what every entry of the tag is read as. -/
def sendSwitchACK (cfg : Config) (x : Downstream) (inDev dst size : ℕ) : Checked Downstream :=
  (x.state.sendSwitchACK cfg inDev dst size).map fun s =>
    ⟨s, x.acks ++ [⟨inDev, fun _ => size, dst⟩]⟩

def silent (x : Downstream) (call : Checked State) : Checked Downstream :=
  call.map fun s => { x with state := s }

def countByteCredit (x : Downstream) : Downstream := { x with state := x.state.countByteCredit }

def countTimeoutCredit (x : Downstream) : Downstream :=
  { x with state := x.state.countTimeoutCredit }

def sendIngressCredits (cfg : Config) (x : Downstream) (dev : ℕ) : Checked Downstream := do
  let acktag ← x.state.getSwitchACKTag cfg dev
  x.sendAccSwitchACK cfg dev acktag

def creditTimeout (cfg : Config) (x : Downstream) (dev dst : ℕ) : Checked Downstream :=
  if dev < switchScale ∧ dst < cfg.hostNum ∧ cfg.ackMode ≠ .hostPerPacketAck then
    match cfg.ackMode with
    | .switchIngressCredit => do
      let due ← x.state.checkIngressCreditCounter cfg dev 1
      if due then (x.sendIngressCredits cfg dev).map countTimeoutCredit
      else x.silent (x.state.updateIngressLastSendTime cfg dev dst)
    | _ => do
      let credit ← x.state.getIngressDstCreditCounter cfg dev dst
      if 0 < credit then (x.sendSwitchACK cfg dev dst (x.state.pippyback cfg dev dst credit)).map countTimeoutCredit
      else x.silent (x.state.updateIngressLastSendTime cfg dev dst)
  else .error .creditTimeout

def sendCredits (cfg : Config) (th dst : ℕ) (x : Downstream) (creditId : ℕ) : Checked Downstream :=
  match cfg.ackMode with
  | .switchIngressCredit => do
    let due ← x.state.checkIngressCreditCounter cfg creditId th
    if due then (x.sendIngressCredits cfg creditId).map countByteCredit else .ok x
  | .switchDstCredit => do
    let credit ← x.state.getIngressDstCreditCounter cfg creditId dst
    if th ≤ credit then
      (x.sendSwitchACK cfg creditId dst (x.state.pippyback cfg creditId dst credit)).map
        countByteCredit
    else .ok x
  | .hostPerPacketAck => .ok x

def checkUpstream (cfg : Config) (dst : ℕ) (x : Downstream) (creditId : ℕ) : Checked Downstream :=
  match cfg.ackMode with
  | .switchIngressCredit => do
    let x ← x.silent (x.state.initLastTime cfg creditId 0)
    x.sendCredits cfg cfg.byteCounter dst creditId
  | .switchDstCredit => do
    let x ← x.silent (x.state.initLastTime cfg creditId dst)
    x.sendCredits cfg cfg.byteCounter dst creditId
  | .hostPerPacketAck => .ok x

def sendLeft (cfg : Config) (counter : ℕ) (p : Dequeued cfg) (x : Downstream) :
    Checked Downstream :=
  if x.state.byteCreditCounter = counter ∧ 1 < cfg.byteCounter ∧ cfg.interval = 0 ∧
    x.state.buffering p.dip = 0 then
    let creditId := (nextUpstream cfg.upstreamNum)^[cfg.upstreamNum] (cfg.creditId p)
    (List.iterate (nextUpstream cfg.allUpstreams) creditId cfg.allUpstreams).foldlM
      (sendCredits cfg 1 p.dip) x
  else .ok x

def creditDequeue (cfg : Config) (x : Downstream) (p : Dequeued cfg) : Checked Downstream := do
  let x ← x.silent (x.state.countDequeue cfg p)
  let upstreams := List.iterate (nextUpstream cfg.upstreamNum) (cfg.creditId p) cfg.upstreamNum
  let y ← upstreams.foldlM (checkUpstream cfg p.dip) x
  y.sendLeft cfg x.state.byteCreditCounter p

def switchNotifyDequeue (cfg : Config) (x : Downstream) (p : Dequeued cfg) : Checked Downstream :=
  if cfg.useSwitchwin && p.udp then
    match cfg.shouldIgnore p.sip with
    | .ok ignore => if !cfg.isToR || !ignore then x.creditDequeue cfg p else .ok x
    | .error _ => .error .shouldIgnore
  else .ok x

def expire (cfg : Config) (x : Downstream) : Checked Downstream :=
  match x.state.creditTimer with
  | some timer =>
      { x with state := { x.state with creditTimer := none } }.creditTimeout cfg timer.dev timer.dst
  | none => .ok x

def step (cfg : Config) (x : Downstream) : Event cfg → Checked Downstream
  | .switchNotifyDequeue p => x.switchNotifyDequeue cfg p
  | .sendAccSwitchACK dev acktag => x.sendAccSwitchACK cfg dev acktag
  | .sendSwitchACK inDev dst size => x.sendSwitchACK cfg inDev dst size
  | .creditTimeout => x.expire cfg
  | .updateBufferingCount dst bytes => x.silent (x.state.step cfg (.updateBufferingCount dst bytes))
  | .advance t => x.silent (x.state.step cfg (.advance t))

end Downstream

/-! ### The states are those of the switch -/

/-- A computation on a switch and the same one on its state. -/
def Follows (call : Checked Downstream) (plain : Checked State) : Prop :=
  call.map Downstream.state = plain

section Follows

variable {α : Type} {cfg : Config} {x : Downstream} {call : Checked Downstream}
    {plain : Checked State}

theorem follows_ok (x : Downstream) : Follows (.ok x) (.ok x.state) := rfl

theorem follows_map {f : State → Downstream} (same : ∀ s, (f s).state = s) :
    Follows (plain.map f) plain := by
  cases plain with
  | error e => rfl
  | ok s => exact congrArg Except.ok (same s)

theorem follows_count {f : Downstream → Downstream} {g : State → State} (h : Follows call plain)
    (same : ∀ x, (f x).state = g x.state) : Follows (call.map f) (plain.map g) := by
  subst h
  cases call with
  | error e => rfl
  | ok x => exact congrArg Except.ok (same x)

theorem follows_read {value : Checked α} {f : α → Checked Downstream} {g : α → Checked State}
    (next : ∀ a, Follows (f a) (g a)) : Follows (value >>= f) (value >>= g) := by
  cases value with
  | error e => rfl
  | ok a => exact next a

theorem follows_bind {f : Downstream → Checked Downstream} {g : State → Checked State}
    (h : Follows call plain)
    (next : ∀ x, Follows (f x) (g x.state)) : Follows (call >>= f) (plain >>= g) := by
  subst h
  cases call with
  | error e => rfl
  | ok x => exact next x

theorem follows_foldlM {f : Downstream → α → Checked Downstream} {g : State → α → Checked State}
    (each : ∀ x a, Follows (f x a) (g x.state a)) (l : List α) (x : Downstream) :
    Follows (l.foldlM f x) (l.foldlM g x.state) := by
  induction l generalizing x with
  | nil => rfl
  | cons a l ih =>
    rw [List.foldlM_cons, List.foldlM_cons]
    exact follows_bind (each x a) ih

theorem follows_silent (x : Downstream) (plain : Checked State) : Follows (x.silent plain) plain :=
  follows_map fun _ => rfl

theorem sendIngressCredits_follows (x : Downstream) (dev : ℕ) :
    Follows (x.sendIngressCredits cfg dev) (x.state.sendIngressCredits cfg dev) :=
  follows_read fun _ => follows_map fun _ => rfl

theorem creditTimeout_follows (x : Downstream) (dev dst : ℕ) :
    Follows (x.creditTimeout cfg dev dst) (x.state.creditTimeout cfg dev dst) := by
  have dsts : Follows
      (do
        let credit ← x.state.getIngressDstCreditCounter cfg dev dst
        if 0 < credit then
          (x.sendSwitchACK cfg dev dst (x.state.pippyback cfg dev dst credit)).map
            Downstream.countTimeoutCredit
        else x.silent (x.state.updateIngressLastSendTime cfg dev dst))
      (do
        let credit ← x.state.getIngressDstCreditCounter cfg dev dst
        if 0 < credit then
          (x.state.sendSwitchACK cfg dev dst (x.state.pippyback cfg dev dst credit)).map
            State.countTimeoutCredit
        else x.state.updateIngressLastSendTime cfg dev dst) := by
    refine follows_read fun credit => ?_
    split
    · exact follows_count (follows_map fun _ => rfl) fun _ => rfl
    · exact follows_silent x _
  unfold Downstream.creditTimeout State.creditTimeout
  split
  · cases cfg.ackMode with
    | switchIngressCredit =>
      refine follows_read fun due => ?_
      split
      · exact follows_count (sendIngressCredits_follows x dev) fun _ => rfl
      · exact follows_silent x _
    | switchDstCredit => exact dsts
    | hostPerPacketAck => exact dsts
  · rfl

theorem sendCredits_follows (th dst : ℕ) (x : Downstream) (creditId : ℕ) :
    Follows (x.sendCredits cfg th dst creditId) (x.state.sendCredits cfg th dst creditId) := by
  unfold Downstream.sendCredits State.sendCredits
  cases cfg.ackMode with
  | switchIngressCredit =>
    refine follows_read fun due => ?_
    split
    · exact follows_count (sendIngressCredits_follows x creditId) fun _ => rfl
    · exact follows_ok x
  | switchDstCredit =>
    refine follows_read fun credit => ?_
    split
    · exact follows_count (follows_map fun _ => rfl) fun _ => rfl
    · exact follows_ok x
  | hostPerPacketAck => exact follows_ok x

theorem checkUpstream_follows (dst : ℕ) (x : Downstream) (creditId : ℕ) :
    Follows (x.checkUpstream cfg dst creditId) (x.state.checkUpstream cfg dst creditId) := by
  unfold Downstream.checkUpstream State.checkUpstream
  cases cfg.ackMode with
  | switchIngressCredit =>
      exact follows_bind (follows_silent x _) fun y => sendCredits_follows _ dst y creditId
  | switchDstCredit =>
      exact follows_bind (follows_silent x _) fun y => sendCredits_follows _ dst y creditId
  | hostPerPacketAck => exact follows_ok x

theorem sendLeft_follows (counter : ℕ) (p : Dequeued cfg) (x : Downstream) :
    Follows (x.sendLeft cfg counter p) (x.state.sendLeft cfg counter p) := by
  unfold Downstream.sendLeft State.sendLeft
  split
  · exact follows_foldlM (sendCredits_follows 1 p.dip) _ x
  · exact follows_ok x

theorem switchNotifyDequeue_follows (x : Downstream) (p : Dequeued cfg) :
    Follows (x.switchNotifyDequeue cfg p) (x.state.switchNotifyDequeue cfg p) := by
  unfold Downstream.switchNotifyDequeue State.switchNotifyDequeue
  split
  · cases cfg.shouldIgnore p.sip with
    | ok ignore =>
      dsimp only
      split
      · refine follows_bind (follows_silent x _) fun y => ?_
        exact follows_bind (follows_foldlM (checkUpstream_follows p.dip) _ y) (sendLeft_follows _ p)
      · exact follows_ok x
    | error e => rfl
  · exact follows_ok x

/-- What is noted of its `SwitchACK`s changes nothing in what a switch does. -/
theorem step_follows (x : Downstream) (ev : Event cfg) :
    Follows (x.step cfg ev) (x.state.step cfg ev) := by
  cases ev with
  | switchNotifyDequeue p => exact switchNotifyDequeue_follows x p
  | sendAccSwitchACK dev acktag => exact follows_map fun _ => rfl
  | sendSwitchACK inDev dst size => exact follows_map fun _ => rfl
  | creditTimeout =>
    show Follows (x.expire cfg) (x.state.expire cfg)
    unfold Downstream.expire State.expire
    cases x.state.creditTimer with
    | some timer => exact creditTimeout_follows _ _ _
    | none => exact follows_ok x
  | updateBufferingCount dst bytes => exact follows_silent x _
  | advance t => exact follows_silent x _

end Follows

/-! ### Bytes that are owed -/

variable {cfg : Config} {x y : Downstream} {s t : State} {watched : ℕ → ℕ → Prop} {due : ℕ → ℕ → ℕ}
  {dev dst th : ℕ}

/-- The bytes of `d` in the `SwitchACK`s to `dev`. -/
def Downstream.returned (cfg : Config) (x : Downstream) (dev d : ℕ) : ℕ :=
  tally (fun a => cfg.toDst a.acktag a.dst d) (fun a => decide (a.dev = dev)) x.acks

/-- The bytes of `d` that `dev` has not got back. -/
def Downstream.owed (cfg : Config) (x : Downstream) (dev d : ℕ) : ℕ :=
  (x.state.credits dev d).getD 0 + x.returned cfg dev d

/-- For what is watched, the counters and the `SwitchACK`s together are what is due. -/
structure Downstream.Settled (cfg : Config) (watched : ℕ → ℕ → Prop) (due : ℕ → ℕ → ℕ)
    (x : Downstream) : Prop where
  owes : ∀ dev, ∀ d < cfg.hostNum, watched dev d → x.owed cfg dev d = due dev d
  small : ∀ dev d, (x.state.credits dev d).getD 0 < 2 ^ 32

/-- The asserts besides those of the functions that clean counters. -/
def Assert.NoClean (e : Assert) : Prop := e ≠ .cleanIngressDstCreditCounter ∧
    e ≠ .cleanIngressCreditCounter

theorem settled_credits (h : x.Settled cfg watched due) (same : t.credits = x.state.credits) :
    Downstream.Settled cfg watched due { x with state := t } := by
  constructor
  · intro dev d host watch
    have before := h.owes dev d host watch
    unfold Downstream.owed at before ⊢
    rw [same]
    exact before
  · rw [same]
    exact h.small

theorem updateIngressLastSendTime_credits (cfg : Config) (s : State) (dev dst : ℕ) :
    Outcome (fun t => t.credits = s.credits) Assert.NoClean
      (s.updateIngressLastSendTime cfg dev dst) := by
  unfold State.updateIngressLastSendTime
  split
  · unfold State.resetCreditTimer
    split
    · rfl
    · split
      · rfl
      · split
        · rfl
        · exact ⟨by decide, by decide⟩
  · exact ⟨by decide, by decide⟩

theorem settled_silent (h : x.Settled cfg watched due) {call : Checked State}
    (same : Outcome (fun t => t.credits = x.state.credits) Assert.NoClean call) :
    Outcome (Downstream.Settled cfg watched due) Assert.NoClean (x.silent call) :=
  outcome_map (outcome_weaken same fun _ => settled_credits h)

theorem returned_concat (cfg : Config) (x : Downstream) (a : AckInFlight) (t : State) (dev d : ℕ) :
    Downstream.returned cfg ⟨t, x.acks ++ [a]⟩ dev d =
      x.returned cfg dev d + if a.dev = dev then cfg.toDst a.acktag a.dst d else 0 := by
  unfold Downstream.returned
  rw [tally_concat]
  simp only [decide_eq_true_eq]

theorem settled_ack (h : x.Settled cfg watched due) {a : AckInFlight}
    (moved : ∀ i, ∀ d < cfg.hostNum, (t.credits i d).getD 0 +
      (if a.dev = i then cfg.toDst a.acktag a.dst d else 0) = (x.state.credits i d).getD 0)
    (less : ∀ i d, (t.credits i d).getD 0 ≤ (x.state.credits i d).getD 0) :
    Downstream.Settled cfg watched due ⟨t, x.acks ++ [a]⟩ := by
  constructor
  · intro i d host watch
    have before := h.owes i d host watch
    have here := moved i d host
    unfold Downstream.owed at before ⊢
    rw [returned_concat]
    dsimp only
    omega
  · intro i d
    exact Nat.lt_of_le_of_lt (less i d) (h.small i d)

theorem sendSwitchACK_settled (relative : cfg.absolutePsn = false)
    (h : x.Settled cfg watched due) {size : ℕ} (known : x.state.credits dev dst = some size) :
    Outcome (Downstream.Settled cfg watched due) Assert.NoClean
      (x.sendSwitchACK cfg dev dst size) := by
  have small : size < 2 ^ 32 := by
    have below := h.small dev dst
    rw [known] at below
    exact below
  unfold Downstream.sendSwitchACK State.sendSwitchACK
  refine outcome_map ?_
  split
  · rename_i mode
    have cleaned : x.state.cleanIngressDstCreditCounter cfg dev dst size =
        .ok { x.state with credits := update₂ x.state.credits dev dst (some 0) } := by
      unfold State.cleanIngressDstCreditCounter
      rw [relative, if_neg Bool.false_ne_true, if_pos known]
    rw [cleaned]
    refine outcome_weaken (updateIngressLastSendTime_credits cfg _ dev dst) fun t same => ?_
    refine settled_ack h (fun i d host => ?_) fun i d => ?_
    · rw [same]
      dsimp only
      rw [update₂_apply, Config.toDst, mode]
      by_cases here : i = dev ∧ d = dst
      · obtain ⟨rfl, rfl⟩ := here
        rw [if_pos ⟨rfl, rfl⟩, if_pos rfl, known]
        dsimp only
        rw [if_pos rfl, Nat.mod_eq_of_lt small]
        exact Nat.zero_add size
      · rw [if_neg here]
        split
        · rename_i dev
          dsimp only
          rw [if_neg fun same => here ⟨dev.symm, same⟩]
          rfl
        · rfl
    · rw [same]
      dsimp only
      rw [update₂_apply]
      split
      · exact Nat.zero_le _
      · exact Nat.le_refl _
  · exact ⟨by decide, by decide⟩

theorem sendIngressCredits_settled (relative : cfg.absolutePsn = false)
    (h : x.Settled cfg watched due) :
    Outcome (Downstream.Settled cfg watched due) Assert.NoClean (x.sendIngressCredits cfg dev) := by
  unfold Downstream.sendIngressCredits State.getSwitchACKTag
  split
  · rename_i row
    show Outcome _ _ (x.sendAccSwitchACK cfg dev (x.state.ackEntry cfg dev))
    have entry : ∀ d, x.state.ackEntry cfg dev d =
        if x.state.notDelayed cfg d then (x.state.credits dev d).getD 0 else 0 := by
      intro d
      unfold State.ackEntry
      rw [relative, if_neg Bool.false_ne_true]
    have below : ∀ d, x.state.ackEntry cfg dev d ≤ (x.state.credits dev d).getD 0 := by
      intro d
      rw [entry]
      split
      · exact Nat.le_refl _
      · exact Nat.zero_le _
    obtain ⟨s, cleaned, same, others⟩ :
      ∃ s, x.state.cleanIngressCreditCounter cfg dev (x.state.ackEntry cfg dev) = .ok s ∧
        (∀ d < cfg.hostNum, (s.credits dev d).getD 0 + x.state.ackEntry cfg dev d =
          (x.state.credits dev d).getD 0) ∧
        (∀ d, (s.credits dev d).getD 0 ≤ (x.state.credits dev d).getD 0) ∧
        ∀ i d, i ≠ dev → s.credits i d = x.state.credits i d := by
      unfold State.cleanIngressCreditCounter
      rw [if_pos row, relative, if_neg Bool.false_ne_true]
      by_cases undelayed : cfg.ackThM = 0
      · rw [if_pos undelayed]
        refine ⟨_, rfl, fun d _ => ?_, fun d => ?_, fun i d other => ?_⟩
        · rw [entry, State.notDelayed, undelayed]
          dsimp only
          rw [Function.update_self]
          simp
        · dsimp only
          rw [Function.update_self]
          exact Nat.zero_le _
        · exact congrFun (Function.update_of_ne other _ _) d
      · rw [if_neg undelayed, if_pos]
        · have row : ∀ d, ((x.state.subtractRow dev (x.state.ackEntry cfg dev) d).getD 0) =
              (x.state.credits dev d).getD 0 - x.state.ackEntry cfg dev d := by
            intro d
            unfold State.subtractRow
            cases known : x.state.credits dev d with
            | none => exact (Nat.zero_sub _).symm
            | some credit => rfl
          refine ⟨_, rfl, fun d _ => ?_, fun d => ?_, fun i d other => ?_⟩
          · have le := below d
            dsimp only
            rw [Function.update_self, row]
            omega
          · dsimp only
            rw [Function.update_self, row]
            exact Nat.sub_le _ _
          · exact congrFun (Function.update_of_ne other _ _) d
        · intro d _ credit known
          have le := below d
          rw [known] at le
          exact le
    unfold Downstream.sendAccSwitchACK State.sendAccSwitchACK
    refine outcome_map ?_
    split
    · rename_i mode
      rw [cleaned]
      refine outcome_weaken (updateIngressLastSendTime_credits cfg s dev 0) fun t kept => ?_
      refine settled_ack h (fun i d host => ?_) fun i d => ?_
      · rw [kept]
        dsimp only
        split
        · rename_i here
          subst here
          have small := Nat.lt_of_le_of_lt (below d) (h.small dev d)
          rw [Config.toDst, mode]
          dsimp only
          rw [if_pos host, Nat.mod_eq_of_lt small]
          exact same d host
        · rename_i other
          rw [others.2 i d fun here => other here.symm]
          rfl
      · rw [kept]
        by_cases here : i = dev
        · subst here
          exact others.1 d
        · rw [others.2 i d here]
    · exact ⟨by decide, by decide⟩
  · exact ⟨by decide, by decide⟩

theorem getIngressDstCreditCounter_known (relative : cfg.absolutePsn = false) (s : State)
    (dev dst : ℕ) :
    Outcome (fun credit => 0 < credit → s.credits dev dst = some credit) Assert.NoClean
      (s.getIngressDstCreditCounter cfg dev dst) := by
  unfold State.getIngressDstCreditCounter
  rw [relative]
  split
  · split
    · intro pos
      cases known : s.credits dev dst with
      | none =>
        rw [known] at pos
        exact absurd pos (Nat.lt_irrefl 0)
      | some credit => rfl
    · exact fun pos => absurd pos (Nat.lt_irrefl 0)
  · exact ⟨by decide, by decide⟩

theorem getIngressDstCreditCounter_noClean (s : State) (dev dst : ℕ) :
    Outcome (fun _ => True) Assert.NoClean (s.getIngressDstCreditCounter cfg dev dst) := by
  unfold State.getIngressDstCreditCounter
  split
  · split
    · split
      · split
        · trivial
        · exact ⟨by decide, by decide⟩
      · trivial
    · trivial
  · exact ⟨by decide, by decide⟩

theorem checkIngressCreditCounter_noClean (s : State) (dev th : ℕ) :
    Outcome (fun _ => True) Assert.NoClean (s.checkIngressCreditCounter cfg dev th) := by
  unfold State.checkIngressCreditCounter
  split
  · refine outcome_map (outcome_weaken (P := fun _ => True) ?_ fun _ _ => trivial)
    refine outcome_foldlM (fun i _ sum _ => ?_) trivial
    exact outcome_map (getIngressDstCreditCounter_noClean s dev i)
  · exact ⟨by decide, by decide⟩

theorem pippyback_relative (relative : cfg.absolutePsn = false) (s : State) (credit : ℕ) :
    s.pippyback cfg dev dst credit = credit := by
  unfold State.pippyback
  rw [relative, if_neg Bool.false_ne_true]

theorem creditTimeout_settled (relative : cfg.absolutePsn = false) (h : x.Settled cfg watched due) :
    Outcome (Downstream.Settled cfg watched due) Assert.NoClean (x.creditTimeout cfg dev dst) := by
  have late : Outcome (Downstream.Settled cfg watched due) Assert.NoClean
      (x.silent (x.state.updateIngressLastSendTime cfg dev dst)) :=
    settled_silent h (updateIngressLastSendTime_credits cfg x.state dev dst)
  unfold Downstream.creditTimeout
  split
  · split
    · refine outcome_bind (checkIngressCreditCounter_noClean x.state dev 1) fun due _ => ?_
      split
      · refine outcome_map (outcome_weaken (sendIngressCredits_settled relative h) fun y after =>
          ?_)
        exact settled_credits after rfl
      · exact late
    · refine outcome_bind (getIngressDstCreditCounter_known relative x.state dev dst)
        fun credit known => ?_
      split
      · rename_i pos
        rw [pippyback_relative relative]
        refine outcome_map
          (outcome_weaken (sendSwitchACK_settled relative h (known pos)) fun y after => ?_)
        exact settled_credits after rfl
      · exact late
  · exact ⟨by decide, by decide⟩

/-- With a threshold of 0 a `SwitchACK` can be due for a counter that does not exist. -/
theorem sendCredits_settled (relative : cfg.absolutePsn = false) (h : x.Settled cfg watched due)
    (creditId : ℕ) : Outcome (Downstream.Settled cfg watched due) (fun e => 0 < th → e.NoClean)
      (x.sendCredits cfg th dst creditId) := by
  unfold Downstream.sendCredits
  split
  · have checked : Outcome (fun _ => True) Assert.NoClean
        (x.state.checkIngressCreditCounter cfg creditId th) :=
      checkIngressCreditCounter_noClean x.state creditId th
    refine outcome_bind (outcome_mono checked (fun _ _ => trivial) fun _ other _ =>
      other) fun due _ => ?_
    split
    · refine outcome_map (outcome_mono (sendIngressCredits_settled relative h)
        (fun y after => ?_) fun _ other _ => other)
      exact settled_credits after rfl
    · exact h
  · have read := getIngressDstCreditCounter_known relative x.state creditId dst
    refine outcome_bind (outcome_mono read (fun _ known => known) fun _ other _ =>
      other) fun credit known => ?_
    split
    · rename_i enough
      rw [pippyback_relative relative]
      by_cases there : x.state.credits creditId dst = some credit
      · refine outcome_map (outcome_mono (sendSwitchACK_settled relative h there)
          (fun y after => ?_) fun _ other _ => other)
        exact settled_credits after rfl
      · have none : th = 0 := by
          by_contra pos
          exact there (known (Nat.lt_of_lt_of_le (Nat.pos_of_ne_zero pos) enough))
        refine outcome_map ?_
        unfold Downstream.sendSwitchACK State.sendSwitchACK State.cleanIngressDstCreditCounter
        rw [relative, if_neg Bool.false_ne_true, if_neg there]
        refine outcome_map ?_
        split
        · exact fun pos => absurd none (Nat.ne_of_gt pos)
        · exact fun pos => absurd none (Nat.ne_of_gt pos)
    · exact h
  · exact h

theorem initLastTime_credits (cfg : Config) (s : State) (dev dst : ℕ) :
    Outcome (fun t => t.credits = s.credits) Assert.NoClean (s.initLastTime cfg dev dst) := by
  unfold State.initLastTime
  split
  · exact updateIngressLastSendTime_credits cfg s dev dst
  · rfl

/-- The asserts of a dequeue: unless the threshold is 0, the counters to clean exist. -/
def Assert.OfDequeue (cfg : Config) (e : Assert) : Prop := 0 < cfg.byteCounter → e.NoClean

theorem checkUpstream_settled (relative : cfg.absolutePsn = false) (h : x.Settled cfg watched due)
    (creditId : ℕ) : Outcome (Downstream.Settled cfg watched due) (Assert.OfDequeue cfg)
      (x.checkUpstream cfg dst creditId) := by
  have started : ∀ dst, Outcome (Downstream.Settled cfg watched due) (Assert.OfDequeue cfg)
      (x.silent (x.state.initLastTime cfg creditId dst)) := fun dst =>
    outcome_mono (settled_silent h (initLastTime_credits cfg x.state creditId dst))
      (fun _ after => after) fun _ other _ => other
  unfold Downstream.checkUpstream
  split
  · exact outcome_bind (started 0) fun y after => sendCredits_settled relative after creditId
  · exact outcome_bind (started dst) fun y after => sendCredits_settled relative after creditId
  · exact h

/-- What is due after a packet of `size` bytes from `dev` to `dst` has been counted. -/
def dueAfter (due : ℕ → ℕ → ℕ) (dev dst size : ℕ) (i d : ℕ) : ℕ :=
  due i d + if i = dev ∧ d = dst then size else 0

theorem countDequeue_settled (relative : cfg.absolutePsn = false) (h : x.Settled cfg watched due)
    (p : Dequeued cfg)
    (fits : watched (cfg.creditId p) p.dip → (x.state.credits (cfg.creditId p) p.dip).getD 0 +
      p.size < 2 ^ 32) :
    Outcome (Downstream.Settled cfg watched (dueAfter due (cfg.creditId p) p.dip p.size))
      Assert.NoClean (x.silent (x.state.countDequeue cfg p)) := by
  unfold Downstream.silent State.countDequeue State.addCreditCounter
  rw [relative, if_neg Bool.false_ne_true]
  refine outcome_map ?_
  split
  · constructor
    · intro i d host watch
      have before := h.owes i d host watch
      unfold Downstream.owed dueAfter at *
      unfold Downstream.returned at *
      dsimp only
      rw [update₂_apply]
      split
      · rename_i here
        obtain ⟨rfl, rfl⟩ := here
        rw [add32_exact (fits watch)]
        dsimp only [Option.getD_some]
        omega
      · exact before
    · intro i d
      dsimp only
      rw [update₂_apply]
      split
      · exact Nat.mod_lt _ (Nat.two_pow_pos 32)
      · exact h.small i d
  · exact ⟨by decide, by decide⟩

theorem creditDequeue_settled (relative : cfg.absolutePsn = false) (h : x.Settled cfg watched due)
    (p : Dequeued cfg)
    (fits : watched (cfg.creditId p) p.dip → (x.state.credits (cfg.creditId p) p.dip).getD 0 +
      p.size < 2 ^ 32) :
    Outcome (Downstream.Settled cfg watched (dueAfter due (cfg.creditId p) p.dip p.size))
      (Assert.OfDequeue cfg) (x.creditDequeue cfg p) := by
  have first := countDequeue_settled relative h p fits
  unfold Downstream.creditDequeue
  refine outcome_bind (outcome_mono first (fun _ after => after) fun _ other _ =>
    other) fun y counted => ?_
  refine outcome_bind (outcome_foldlM (fun creditId _ z before => ?_) counted) fun z sent => ?_
  · exact checkUpstream_settled relative before creditId
  · unfold Downstream.sendLeft
    split
    · refine outcome_foldlM (fun creditId _ z before => ?_) sent
      exact outcome_mono (sendCredits_settled relative before creditId) (fun _ after => after)
        fun _ other _ => other Nat.one_pos
    · exact sent

/-- Whether a dequeue counts the bytes of a packet. -/
def Config.Counts (cfg : Config) (p : Dequeued cfg) : Prop :=
  cfg.useSwitchwin = true ∧ p.udp = true ∧ (cfg.isToR = true → cfg.dst2group p.sip ≠ some .ignore)

instance (cfg : Config) (p : Dequeued cfg) : Decidable (cfg.Counts p) :=
  inferInstanceAs (Decidable (cfg.useSwitchwin = true ∧ p.udp = true ∧
    (cfg.isToR = true → cfg.dst2group p.sip ≠ some .ignore)))

theorem switchNotifyDequeue_counts (x : Downstream) (p : Dequeued cfg) :
    x.switchNotifyDequeue cfg p = if cfg.Counts p then x.creditDequeue cfg p else .ok x := by
  obtain ⟨rule, known⟩ := Option.isSome_iff_exists.mp ((cfg.hosts p.sip).mpr p.sip.isLt)
  have ignore : cfg.shouldIgnore p.sip = .ok (decide (rule = .ignore)) := by
    unfold Config.shouldIgnore
    rw [known]
    cases rule <;> rfl
  have counts : cfg.Counts p ↔ cfg.useSwitchwin = true ∧ p.udp = true ∧
      (cfg.isToR = true → rule ≠ .ignore) := by
    unfold Config.Counts
    rw [known, ne_eq, Option.some.injEq]
  unfold Downstream.switchNotifyDequeue
  rw [ignore]
  by_cases counted : cfg.Counts p
  · obtain ⟨on, udp, tor⟩ := counts.mp counted
    rw [if_pos counted, on, udp]
    cases first : cfg.isToR with
    | false => rfl
    | true => simp [tor first]
  · rw [if_neg counted]
    rw [counts] at counted
    cases on : cfg.useSwitchwin with
    | false => rfl
    | true =>
      cases udp : p.udp with
      | false => rfl
      | true =>
        simp only [on, udp, true_and, not_forall, not_not] at counted
        obtain ⟨tor, rfl⟩ := counted
        simp [tor]

theorem switchNotifyDequeue_settled (relative : cfg.absolutePsn = false)
    (h : x.Settled cfg watched due) (p : Dequeued cfg)
    (fits : watched (cfg.creditId p) p.dip → (x.state.credits (cfg.creditId p) p.dip).getD 0 +
      p.size < 2 ^ 32) :
    Outcome (Downstream.Settled cfg watched
      (if cfg.Counts p then dueAfter due (cfg.creditId p) p.dip p.size else due))
      (Assert.OfDequeue cfg) (x.switchNotifyDequeue cfg p) := by
  rw [switchNotifyDequeue_counts]
  split
  · exact creditDequeue_settled relative h p fits
  · exact h

theorem expire_settled (relative : cfg.absolutePsn = false) (h : x.Settled cfg watched due) :
    Outcome (Downstream.Settled cfg watched due) Assert.NoClean (x.expire cfg) := by
  unfold Downstream.expire
  split
  · exact creditTimeout_settled relative (settled_credits h rfl)
  · exact h

end Credit

end Floodgate

end Pyrrha

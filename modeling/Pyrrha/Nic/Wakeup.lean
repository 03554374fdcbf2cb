import Mathlib.Data.Nat.ModEq
import Pyrrha.Nic.Device

/-!
The wake-up of a NIC. It is set for one minimum over all queue pairs with bytes left, the blocked
ones among them, and only if that is in the future and no wake-up is pending.
-/

namespace Pyrrha
open Lib Rdma

namespace Nic

variable {cfg : NicConfig} {d d' : NetDevice} {q q' : SenderQp}

/-- The queue pair has bytes left, and its rate holds them back. -/
def SenderQp.Waits (cfg : NicConfig) (now : ℕ) (q : SenderQp) : Prop :=
  0 < q.bytesLeft cfg ∧ (now : ℤ) < q.getNextAvailT

instance (cfg : NicConfig) (now : ℕ) (q : SenderQp) : Decidable (q.Waits cfg now) :=
  inferInstanceAs (Decidable (_ ∧ _))

/-- The queue pair is neither paused nor window-bound. -/
def SenderQp.isFree (cfg : NicConfig) (paused : ℕ → Bool) (q : SenderQp) : Bool :=
  (q.isPaused cfg paused).toOption == some false && (q.qp.peek cfg.snd).any fun msg =>
    (msg.op.getOnTheFly (msg.cfg cfg.snd.toQpConfig)).any fun inflight => !q.isWinBound cfg inflight

namespace NetDevice

/-- For every queue pair that only its rate holds back, a wake-up is pending that is not too
late. -/
def Woken (cfg : NicConfig) (d : NetDevice) : Prop :=
  ∀ q ∈ d.senders, q.Waits cfg d.now → q.isFree cfg d.paused = true →
    ∃ ts ∈ d.nextSend, ts ≤ q.getNextAvailT

instance (cfg : NicConfig) (d : NetDevice) : Decidable (d.Woken cfg) := by
  unfold Woken
  infer_instance

/-- No wake-up is needed, or the minimum of the next-available times is in the future. -/
def Ahead (cfg : NicConfig) (d : NetDevice) : Prop :=
  (∀ q ∈ d.senders, q.Waits cfg d.now → q.isFree cfg d.paused = false) ∨
    (∀ q ∈ d.senders, 0 < q.bytesLeft cfg → (d.now : ℤ) < q.getNextAvailT) ∧
      ∃ q ∈ d.senders, 0 < q.bytesLeft cfg ∧ q.getNextAvailT < maxTime

instance (cfg : NicConfig) (d : NetDevice) : Decidable (d.Ahead cfg) := by
  unfold Ahead
  infer_instance

/-- The queue pair at `i` had no bytes left when the wake-up was set, or was not to be available so
early. -/
def Moved (cfg : NicConfig) (slept : NetDevice) (i : ℕ) (q : SenderQp) : Prop :=
  ∀ old ∈ slept.senderAt i, old.bytesLeft cfg = 0 ∨ q.getNextAvailT < old.getNextAvailT

instance (cfg : NicConfig) (slept : NetDevice) (i : ℕ) (q : SenderQp) :
    Decidable (slept.Moved cfg i q) := by
  unfold Moved
  infer_instance

/-- The next wake-up is `Ahead`, or one is pending and no queue pair that has moved since overtakes
it. -/
def InTime (cfg : NicConfig) (d slept : NetDevice) : Prop :=
  (d.nextSend = none → d.Ahead cfg) ∧ ∀ ts ∈ d.nextSend, ∀ i < d.qps.length, ∀ q ∈ d.senderAt i,
    q.Waits cfg d.now → q.isFree cfg d.paused = true → slept.Moved cfg i q → ts ≤ q.getNextAvailT

instance (cfg : NicConfig) (d slept : NetDevice) : Decidable (d.InTime cfg slept) := by
  unfold InTime
  infer_instance

end NetDevice

/-- The queue pair after `ShouldSndData`: with IRN, it drops what need not be sent again. -/
def SenderQp.checked (cfg : NicConfig) (now : ℕ) (q : SenderQp) : SenderQp :=
  ((q.shouldSndData cfg now).toOption.map Prod.fst).getD q

def HostQp.checked (cfg : NicConfig) (now : ℕ) : HostQp → HostQp
  | .snd q => .snd (q.checked cfg now)
  | .rx => .rx

def NetDevice.checked (cfg : NicConfig) (d : NetDevice) : NetDevice :=
  { d with qps := d.qps.map (HostQp.checked cfg d.now) }

/-! ### The minimum -/

theorem soonest_le {l : List HostQp} {q : SenderQp} (member : q ∈ l.filterMap HostQp.sender)
    (left : 0 < q.bytesLeft cfg) : NetDevice.soonest cfg l ≤ q.getNextAvailT := by
  induction l with
  | nil => cases member
  | cons h rest ih =>
    cases h with
    | rx => exact ih member
    | snd q' =>
      unfold NetDevice.soonest
      rcases List.mem_cons.mp member with rfl | later
      · rw [if_neg left.ne']
        exact min_le_left _ _
      · split
        · exact ih later
        · exact (min_le_right _ _).trans (ih later)

theorem soonest_cases (cfg : NicConfig) (l : List HostQp) : NetDevice.soonest cfg l = maxTime ∨
    ∃ q ∈ l.filterMap HostQp.sender, 0 < q.bytesLeft cfg ∧
    NetDevice.soonest cfg l = q.getNextAvailT := by
  induction l with
  | nil => exact .inl rfl
  | cons h rest ih =>
    cases h with
    | rx => exact ih
    | snd q =>
      have later : ∀ x : ℤ, x = NetDevice.soonest cfg rest → x = maxTime ∨
          ∃ q' ∈ (HostQp.snd q :: rest).filterMap HostQp.sender, 0 < q'.bytesLeft cfg ∧
            x = q'.getNextAvailT := by
        rintro x rfl
        rcases ih with top | ⟨q', member, left, same⟩
        · exact .inl top
        · exact .inr ⟨q', List.mem_cons_of_mem q member, left, same⟩
      unfold NetDevice.soonest
      split
      · exact later _ rfl
      · rename_i left
        rcases min_choice q.getNextAvailT (NetDevice.soonest cfg rest) with first | second
        · exact .inr ⟨q, List.mem_cons_self, Nat.pos_of_ne_zero left, first⟩
        · exact later _ second

theorem sleep_senders (cfg : NicConfig) (d : NetDevice) : (d.sleep cfg).senders = d.senders ∧
    (d.sleep cfg).now = d.now ∧
    (d.sleep cfg).paused = d.paused := by
  unfold NetDevice.sleep
  dsimp only
  split <;> exact ⟨rfl, rfl, rfl⟩

/-- A call that finds nothing to send leaves the wake-ups that are needed exactly if the pending one
is early enough, or none is pending and the next one is ahead. -/
theorem woken_sleep_iff : (d.sleep cfg).Woken cfg ↔
    (d.nextSend ≠ none ∧ d.Woken cfg) ∨ d.nextSend = none ∧ d.Ahead cfg := by
  obtain ⟨senders, now, paused⟩ := sleep_senders cfg d
  cases pending : d.nextSend with
  | some ts =>
    have same : d.sleep cfg = d := by
      unfold NetDevice.sleep
      dsimp only
      rw [if_neg fun h => Option.some_ne_none ts (pending.symm.trans h.1)]
    rw [same]
    simp
  | none =>
    simp only [ne_eq, not_true_eq_false, false_and, true_and, false_or]
    constructor
    · intro woken
      by_cases set : NetDevice.soonest cfg d.qps < maxTime ∧
        (d.now : ℤ) < NetDevice.soonest cfg d.qps
      · right
        refine ⟨fun q member left => set.2.trans_le (soonest_le member left), ?_⟩
        rcases soonest_cases cfg d.qps with top | ⟨q, member, left, same⟩
        · exact absurd top set.1.ne
        · exact ⟨q, member, left, same ▸ set.1⟩
      · left
        intro q member waits
        have same : d.sleep cfg = d := by
          unfold NetDevice.sleep
          dsimp only
          rw [if_neg fun h => set h.2]
        rw [same] at woken
        refine Bool.eq_false_iff.mpr fun free => ?_
        obtain ⟨ts, some_ts, -⟩ := woken q member waits free
        rw [pending] at some_ts
        cases some_ts
    · intro ahead q member waits free
      rw [senders] at member
      rw [now] at waits
      rw [paused] at free
      rcases ahead with blocked | ⟨future, q', member', left, early⟩
      · rw [blocked q member waits] at free
        cases free
      · have below : NetDevice.soonest cfg d.qps < maxTime :=
          (soonest_le member' left).trans_lt early
        have later : (d.now : ℤ) < NetDevice.soonest cfg d.qps := by
          rcases soonest_cases cfg d.qps with top | ⟨x, inside, some_left, same⟩
          · exact absurd top below.ne
          · rw [same]
            exact future x inside some_left
        refine ⟨NetDevice.soonest cfg d.qps, ?_, soonest_le member waits.1⟩
        unfold NetDevice.sleep
        dsimp only
        rw [if_pos ⟨pending, below, later⟩]
        rfl

/-! ### A call that finds nothing to send -/

/-- A scan that finds no queue pair has asked all those it was given. -/
theorem nextQp_none {quota : ℕ → Bool} {l : List ℕ} {e : NetDevice} (once : l.Nodup)
    (h : d.nextQp cfg quota l = .ok (e, none)) : ∃ qps, e = { d with qps := qps } ∧
      ∀ i : ℕ, qps[i]? = if i ∈ l then d.qps[i]?.map (HostQp.checked cfg d.now) else d.qps[i]? := by
  induction l generalizing d with
  | nil =>
    cases h
    exact ⟨e.qps, rfl, fun i => by simp⟩
  | cons j rest ih =>
    obtain ⟨fresh, once⟩ := List.nodup_cons.mp once
    unfold NetDevice.nextQp at h
    split at h
    · rename_i q here
      obtain ⟨⟨q', ready⟩, asked, h⟩ := bind_ok h
      have same : q.checked cfg d.now = q' := by
        unfold SenderQp.checked
        rw [asked]
        rfl
      have inside : j < d.qps.length := (List.getElem?_eq_some_iff.mp here).1
      have after : ∃ qps, e = { d with qps := qps } ∧ ∀ i : ℕ, qps[i]? =
          if i ∈ rest then (d.qps.set j (.snd q'))[i]?.map (HostQp.checked cfg d.now)
          else (d.qps.set j (.snd q'))[i]? := by
        dsimp only at h
        split at h
        · exact ih once h
        · obtain ⟨paused, -, h⟩ := bind_ok h
          split at h
          · exact ih once h
          · cases h
      obtain ⟨qps, rfl, at_index⟩ := after
      refine ⟨qps, rfl, fun i => ?_⟩
      rw [at_index, List.getElem?_set]
      by_cases at_j : j = i
      · subst at_j
        rw [if_neg fresh, if_pos rfl, if_pos inside, if_pos List.mem_cons_self, here,
          Option.map_some, HostQp.checked, same]
      · simp [at_j, Ne.symm at_j]
    · rename_i notSender
      obtain ⟨qps, rfl, at_index⟩ := ih once h
      refine ⟨qps, rfl, fun i => ?_⟩
      rw [at_index]
      by_cases at_j : i = j
      · subst at_j
        rw [if_neg fresh, if_pos List.mem_cons_self]
        cases here : d.qps[i]? with
        | none => rfl
        | some host =>
          cases host with
          | snd q => exact absurd here (notSender q)
          | rx => rfl
      · simp [at_j]

theorem rrOrder_nodup (d : NetDevice) : d.rrOrder.Nodup := by
  refine List.Nodup.map_on (fun i hi j hj same => ?_) List.nodup_range
  have step : (i + (1 + d.rrlast)) % d.qps.length = (j + (1 + d.rrlast)) % d.qps.length := by
    simpa only [Nat.add_assoc] using same
  exact (Nat.ModEq.add_right_cancel' _ step).eq_of_lt_of_lt (List.mem_range.mp hi)
    (List.mem_range.mp hj)

theorem mem_rrOrder {i : ℕ} (inside : i < d.qps.length) : i ∈ d.rrOrder := by
  have all : d.rrOrder ⊆ List.range d.qps.length := by
    intro j member
    obtain ⟨k, -, rfl⟩ := List.mem_map.mp member
    exact List.mem_range.mpr (Nat.mod_lt _ (by omega))
  have length : (List.range d.qps.length).length ≤ d.rrOrder.length := by simp [NetDevice.rrOrder]
  have perm := ((rrOrder_nodup d).subperm all).perm_of_length_le length
  exact perm.mem_iff.mpr (List.mem_range.mpr inside)

theorem nextQp_checked {quota : ℕ → Bool} {e : NetDevice}
    (h : d.nextQp cfg quota d.rrOrder = .ok (e, none)) : e = d.checked cfg := by
  obtain ⟨qps, rfl, at_index⟩ := nextQp_none (rrOrder_nodup d) h
  unfold NetDevice.checked
  congr 1
  refine List.ext_getElem? fun i => ?_
  rw [at_index, List.getElem?_map]
  cases here : d.qps[i]? with
  | none => simp
  | some host => rw [if_pos (mem_rrOrder (List.getElem?_eq_some_iff.mp here).1)]

theorem nextQp_nextSend {quota : ℕ → Bool} {l : List ℕ} {e : NetDevice} {i : Option ℕ}
    (h : d.nextQp cfg quota l = .ok (e, i)) : e.nextSend = d.nextSend := by
  induction l generalizing d with
  | nil =>
    cases h
    rfl
  | cons j rest ih =>
    unfold NetDevice.nextQp at h
    split at h
    · obtain ⟨⟨q', ready⟩, -, h⟩ := bind_ok h
      dsimp only at h
      split at h
      · rw [ih h]
      · obtain ⟨paused, -, h⟩ := bind_ok h
        split at h
        · rw [ih h]
        · cases h
          rfl
    · exact ih h

theorem sendData_nextSend {e : NetDevice} {i : ℕ} (h : d.sendData cfg i = .ok e) :
    e.nextSend = d.nextSend := by
  unfold NetDevice.sendData at h
  split at h
  · obtain ⟨⟨q', size⟩, -, h⟩ := bind_ok h
    cases h
    rfl
  · cases h

/-- `DequeueAndTransmit` leaves the wake-up as it is, or finds nothing to send when all have been
asked. -/
theorem dequeueAndTransmit_cases {quota : ℕ → Bool} {turn : Turn}
    (h : d.dequeueAndTransmit cfg quota = .ok (d', turn)) :
    turn ≠ .none ∧ d'.nextSend = d.nextSend ∨ turn = .none ∧ d' = (d.checked cfg).sleep cfg := by
  unfold NetDevice.dequeueAndTransmit at h
  split at h
  · cases h
    exact .inl ⟨by decide, rfl⟩
  split at h
  · cases h
    exact .inl ⟨by decide, rfl⟩
  obtain ⟨⟨e, i⟩, picked, h⟩ := bind_ok h
  cases i with
  | some i =>
    obtain ⟨f, sent, h⟩ := bind_ok h
    cases h
    exact .inl ⟨by decide, (sendData_nextSend sent).trans (nextQp_nextSend picked)⟩
  | none =>
    cases h
    exact .inr ⟨rfl, by rw [nextQp_checked picked]⟩

/-! ### Runs -/

theorem updateNextAvail_earlier {t ts : ℤ} (h : (d.updateNextAvail t).nextSend = some ts) :
    ∃ old, d.nextSend = some old ∧ ts ≤ old := by
  unfold NetDevice.updateNextAvail at h
  cases pending : d.nextSend with
  | none =>
    rw [pending] at h
    cases pending.symm.trans h
  | some old =>
    rw [pending] at h
    dsimp only at h
    split at h
    · rename_i sooner
      cases h
      exact ⟨old, rfl, sooner.1.le⟩
    · obtain rfl := Option.some.inj (pending.symm.trans h)
      exact ⟨old, rfl, le_refl _⟩

/-- Outside of `DequeueAndTransmit` a pending wake-up only comes earlier. -/
theorem prepare_earlier {ev : NicEvent} {ts : ℤ} (h : d.prepare cfg ev = .ok d')
    (set : d'.nextSend = some ts) : ∃ old, d.nextSend = some old ∧ ts ≤ old := by
  have kept : d'.nextSend = d.nextSend → ∃ old, d.nextSend = some old ∧ ts ≤ old :=
    fun same => ⟨ts, same ▸ set, le_refl _⟩
  have changed {i : ℕ} {f : SenderQp → Except Halt SenderQp} (h : d.onSender i f = .ok d') :
      d'.nextSend = d.nextSend := by
    unfold NetDevice.onSender at h
    split at h
    · obtain ⟨q', -, h⟩ := bind_ok h
      cases h
      rfl
    · cases h
  cases ev with
  | newSender q =>
    cases h
    exact kept rfl
  | newReceiver =>
    cases h
    exact kept rfl
  | clear =>
    cases h
    exact kept rfl
  | reassigned q =>
    cases h
    exact kept rfl
  | arrives i a => exact kept (changed h)
  | changeRate i rate =>
    dsimp only [NetDevice.prepare] at h
    unfold NetDevice.changeRate at h
    split at h
    · cases h
      exact updateNextAvail_earlier set
    · cases h
  | updateWin i win pacingDelay => exact kept (changed h)
  | pause id b =>
    cases h
    exact kept rfl
  | enqueueAck size =>
    cases h
    exact kept rfl
  | link up =>
    cases h
    exact kept rfl
  | tick t =>
    dsimp only [NetDevice.prepare] at h
    split at h
    · cases h
      exact kept rfl
    · cases h
  | trigger quota =>
    cases h
    exact kept rfl
  | wakeUp quota =>
    dsimp only [NetDevice.prepare] at h
    split at h
    · cases h
      cases set
    · cases h
  | transmitComplete quota =>
    dsimp only [NetDevice.prepare] at h
    split at h
    · cases h
      exact kept rfl
    · cases h

/-- A step calls `DequeueAndTransmit` in the state its event prepares, or leaves that state. -/
theorem step_cases {ev : NicEvent} {turn : Turn} (h : d.step cfg ev = .ok (d', turn)) :
    ∃ e, d.prepare cfg ev = .ok e ∧ (turn ≠ .none ∧ d'.nextSend = e.nextSend ∨
      turn = .none ∧ d' = (e.checked cfg).sleep cfg) := by
  obtain ⟨e, prepared, h⟩ := bind_ok h
  refine ⟨e, prepared, ?_⟩
  split at h
  · exact dequeueAndTransmit_cases h
  · cases h
    exact .inl ⟨by decide, rfl⟩

theorem sleep_nextSend (cfg : NicConfig) (d : NetDevice) :
    (d.nextSend ≠ none → (d.sleep cfg).nextSend = d.nextSend) ∧
    (d.nextSend = none → ∀ ts ∈ (d.sleep cfg).nextSend, ts =
      NetDevice.soonest cfg (d.sleep cfg).qps) := by
  unfold NetDevice.sleep
  dsimp only
  split
  · rename_i set
    refine ⟨fun pending => absurd set.1 pending, fun _ ts here => ?_⟩
    cases here
    rfl
  · refine ⟨fun _ => rfl, fun none ts here => ?_⟩
    rw [none] at here
    cases here

/-- A pending wake-up is set for the minimum found by the call that set it, or for an earlier
time. -/
theorem runs_soonest {slept : NetDevice} (runs : NetDevice.Runs cfg slept d) :
    ∀ ts ∈ d.nextSend, ts ≤ NetDevice.soonest cfg slept.qps := by
  induction runs with
  | initial => exact fun ts none => by cases none
  | @step slept d d' ev turn _ call before =>
    obtain ⟨e, prepared, outcome⟩ := step_cases call
    -- what is pending when `DequeueAndTransmit` is called was pending before, for no earlier time
    have kept : ∀ ts ∈ e.nextSend, ts ≤ NetDevice.soonest cfg slept.qps := by
      intro ts set
      obtain ⟨old, was, le⟩ := prepare_earlier prepared set
      exact le.trans (before old was)
    have sets : d.setsWakeUp cfg ev turn = (decide (turn = .none) && e.nextSend.isNone) := by
      unfold NetDevice.setsWakeUp
      rw [prepared]
      rfl
    rw [sets]
    rcases outcome with ⟨other, same⟩ | ⟨rfl, rfl⟩
    · rw [same]
      simpa [other] using kept
    · obtain ⟨stays, comes⟩ := sleep_nextSend cfg (e.checked cfg)
      cases pending : e.nextSend with
      | none => exact fun ts set => (comes pending ts set).le
      | some old =>
        intro ts set
        rw [stays (by rw [show (e.checked cfg).nextSend = e.nextSend from rfl, pending]; simp)] at set
        exact kept ts set

theorem senderAt_senders {i : ℕ} (here : q ∈ d.senderAt i) : q ∈ d.senders := by
  obtain ⟨host, at_i, same⟩ := Option.bind_eq_some_iff.mp here
  exact List.mem_filterMap.mpr ⟨host, List.mem_of_getElem? at_i, same⟩

theorem exists_senderAt (member : q ∈ d.senders) : ∃ i < d.qps.length, q ∈ d.senderAt i := by
  obtain ⟨host, inside, same⟩ := List.mem_filterMap.mp member
  obtain ⟨i, bound, here⟩ := List.mem_iff_getElem.mp inside
  refine ⟨i, bound, Option.bind_eq_some_iff.mpr ⟨host, ?_, same⟩⟩
  rw [List.getElem?_eq_getElem bound, here]

/-- The queue pairs that have not moved since the wake-up was set are not available before it. -/
theorem inTime_iff {slept : NetDevice}
    (set : ∀ ts ∈ d.nextSend, ts ≤ NetDevice.soonest cfg slept.qps) :
    d.InTime cfg slept ↔ (d.nextSend ≠ none ∧ d.Woken cfg) ∨ d.nextSend = none ∧ d.Ahead cfg := by
  unfold NetDevice.InTime
  cases pending : d.nextSend with
  | none => simp
  | some ts =>
    simp only [reduceCtorEq, ne_eq, not_false_iff, true_and, false_and, or_false]
    constructor
    · intro inTime q member waits free
      obtain ⟨i, bound, here⟩ := exists_senderAt member
      refine ⟨ts, pending, ?_⟩
      by_cases moved : slept.Moved cfg i q
      · exact inTime.2 ts rfl i bound q here waits free moved
      · obtain ⟨old, was, still⟩ : ∃ old ∈ slept.senderAt i,
            ¬(old.bytesLeft cfg = 0 ∨ q.getNextAvailT < old.getNextAvailT) := by
          simpa only [NetDevice.Moved, not_forall, exists_prop] using moved
        obtain ⟨left, later⟩ := not_or.mp still
        have counted := soonest_le (senderAt_senders was) (Nat.pos_of_ne_zero left)
        exact (set ts pending).trans (counted.trans (not_lt.mp later))
    · intro woken
      refine ⟨fun none => none.elim, fun t same i _ q here waits free _ => ?_⟩
      obtain ⟨ts', here', le⟩ := woken q (senderAt_senders here) waits free
      rw [pending] at here'
      cases same
      cases here'
      exact le

/-- In every run, a call of `DequeueAndTransmit` that finds nothing to send leaves a wake-up in time
for every queue pair that only its rate holds back exactly when it was called in time. -/
theorem wakeup_pending {slept : NetDevice} {ev : NicEvent} (runs : NetDevice.Runs cfg slept d)
    (call : d.step cfg ev = .ok (d', .none)) :
    d'.Woken cfg ↔ ∀ e ∈ (d.prepare cfg ev).toOption, (e.checked cfg).InTime cfg slept := by
  obtain ⟨e, prepared, outcome⟩ := step_cases call
  rcases outcome with ⟨other, -⟩ | ⟨-, rfl⟩
  · exact absurd rfl other
  have set : ∀ ts ∈ (e.checked cfg).nextSend, ts ≤ NetDevice.soonest cfg slept.qps := by
    intro ts pending
    obtain ⟨old, was, le⟩ := prepare_earlier prepared pending
    exact le.trans (runs_soonest runs old was)
  rw [woken_sleep_iff, ← inTime_iff set, prepared]
  simp [Except.toOption]

/-- A link of 2 bytes in a unit of time, without windows; a host of the rack is paused by its
number. -/
def smallNic : NicConfig where
  snd := ⟨⟨Session.smallConfig .goBackN 0, 0, true⟩, .fifo⟩
  ackQIdx := 3
  pfcFine := .dst
  portScale := 0
  quotaMode := false
  rateBound := true
  resetQpRate := false
  winInitial := 0
  headers := 0
  interframeGap := 0
  bps := 2
  txTime rate bytes := 2 * bytes / rate

def smallSender (dst : ℕ) : SenderQp :=
  { pg := 3, dst := dst, qpid := dst, queueId := 0, nextAvail := 0, lastPktSize := 0, win := 0, varWin := false,
    rate := 2, maxRate := 2 }

/-- The device a step leaves in which `DequeueAndTransmit` finds nothing to send. -/
def NetDevice.idles (cfg : NicConfig) (d : NetDevice) (ev : NicEvent) : Option NetDevice :=
  (d.step cfg ev).toOption.bind fun r => if r.2 = .none then some r.1 else none

theorem idles_step {ev : NicEvent} (h : d.idles cfg ev = some d') :
    d.step cfg ev = .ok (d', .none) := by
  obtain ⟨⟨e, turn⟩, call, idle⟩ := Option.bind_eq_some_iff.mp h
  split at idle
  · rename_i none
    cases idle
    obtain rfl : turn = .none := none
    exact toOption_eq_some.mp call
  · cases idle

/-- A queue pair at half the rate of the link sends a packet. While its wake-up is pending, another
one is given a message, and sends it at once. -/
def slowBesideFast : List NicEvent :=
  [.newSender (smallSender 1), .newSender (smallSender 2), .arrives 1 (.add 0 25), .changeRate 1 1,
    .trigger fun _ => true, .tick 10, .transmitComplete fun _ =>
      true, .tick 12, .arrives 0 (.add 0 5), .trigger fun _ => true, .tick 17]

theorem wakeup_pending_slow : ∃ slept d d' : NetDevice, NetDevice.Runs smallNic slept d ∧
    d.nextSend = some 20 ∧
    d.step smallNic (.transmitComplete fun _ => true) = .ok (d', .none) ∧ d'.Woken smallNic ∧
    ∃ q ∈ d'.senders, q.Waits smallNic d'.now ∧ q.isFree smallNic d'.paused = true := by
  have ends : (NetDevice.run smallNic ({}, {}) slowBesideFast).any (fun s =>
      decide (s.2.nextSend = some 20) &&
        decide (∀ e ∈ (s.2.prepare smallNic (.transmitComplete fun _ => true)).toOption,
        (e.checked smallNic).InTime smallNic s.1) &&
        (s.2.idles smallNic (.transmitComplete fun _ => true)).any fun d' =>
          decide (∃ q ∈ d'.senders, q.Waits smallNic d'.now ∧ q.isFree smallNic d'.paused = true)) =
            true := by
    decide +kernel
  obtain ⟨⟨slept, d⟩, run, shape⟩ := (Option.any_eq_true ..).mp ends
  obtain ⟨shape, idles⟩ := Bool.and_eq_true_iff.mp shape
  obtain ⟨set, inTime⟩ := Bool.and_eq_true_iff.mp shape
  obtain ⟨d', idle, waits⟩ := (Option.any_eq_true ..).mp idles
  have runs : NetDevice.Runs smallNic slept d := NetDevice.runs_run .initial run
  exact ⟨slept, d, d', runs, of_decide_eq_true set, idles_step idle,
    (wakeup_pending runs (idles_step idle)).mpr (of_decide_eq_true inTime), of_decide_eq_true waits⟩

/-- Beside it another one with bytes left is paused. -/
def slowBesidePaused : List NicEvent :=
  [.newSender (smallSender 1), .newSender (smallSender 2), .arrives 0 (.add 0 25),
    .arrives 1 (.add 0 25), .pause 1 true, .changeRate 1 1, .trigger fun _ => true, .tick 10]

theorem wakeup_lost : ∃ slept d d' : NetDevice, NetDevice.Runs smallNic slept d ∧
    d.step smallNic (.transmitComplete fun _ => true) = .ok (d', .none) ∧ d'.nextSend = none ∧
    ¬d'.Woken smallNic := by
  have ends : (NetDevice.run smallNic ({}, {}) slowBesidePaused).any (fun s =>
      (s.2.idles smallNic (.transmitComplete fun _ => true)).any fun d' =>
        decide (d'.nextSend = none) && !decide (d'.Woken smallNic)) = true := by
    decide +kernel
  obtain ⟨⟨slept, d⟩, run, idles⟩ := (Option.any_eq_true ..).mp ends
  obtain ⟨d', idle, shape⟩ := (Option.any_eq_true ..).mp idles
  obtain ⟨unset, lost⟩ := Bool.and_eq_true_iff.mp shape
  rw [Bool.not_eq_true'] at lost
  exact ⟨slept, d, d', NetDevice.runs_run .initial run, idles_step idle, of_decide_eq_true unset,
    of_decide_eq_false lost⟩

end Nic

end Pyrrha

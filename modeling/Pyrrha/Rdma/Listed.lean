import Pyrrha.Rdma.Places
import Pyrrha.Rdma.Timeout

/-!
The two models of `RdmaSndQueuePair` side by side. In `QueuePair` a message is named by its position
and its session says in which list it is; `SndQueuePair` has the lists. What is done with one
message is the same functions in both; here are the routines that look at all of them: a message is
added, `ResetMSGRTOTime`, and `RecoverMSG`.
-/

namespace Pyrrha
open Lib

namespace Rdma

/-- The message as it stands in a list, with the number `k`. -/
def Message.numbered (k : ℕ) (m : Message) : SndMsg where
  msgSeq := k
  size := m.size
  size_lt := m.size_lt
  op := m.op
  timers := m.session.snd.timers
  lastActionTime := m.lastActionTime

namespace QueuePair

/-- The list has the messages that are not finished and whose session says so. -/
def Lists (s : QueuePair) (isSending : Bool) (l : List SndMsg) : Prop :=
  ∀ x, x ∈ l ↔ ∃ m, s.msgs[x.msgSeq]? = some m ∧ m.session.snd.finished = false ∧
    m.session.snd.isSending = isSending ∧ x = m.numbered x.msgSeq

/-- The queue pair as its lists have it. -/
structure Listed (s : QueuePair) (t : SndQueuePair) : Prop where
  now : t.now = s.now
  timer : t.eventTimeoutRetransmission = s.eventTimeoutRetransmission
  sending : s.Lists true t.rdmaMsgsSending
  waiting : s.Lists false t.rdmaMsgsWaiting
  finished : ∀ k, t.finishedMsgs.any (·.msgSeq = k) = s.msgs[k]?.any fun m => m.session.snd.finished
  keys : ((t.rdmaMsgsSending ++ t.rdmaMsgsWaiting).map SndMsg.msgSeq).Nodup

end QueuePair

variable {q : QpConfig} {s s' : QueuePair} {t : SndQueuePair} {m : Message} {k : ℕ}

/-! ### A message -/

@[simp] theorem numbered_msgSeq (k : ℕ) (m : Message) : (m.numbered k).msgSeq = k := rfl

@[simp] theorem numbered_due (q : QpConfig) (now k : ℕ) (m : Message) :
    (m.numbered k).due q now = m.due q now := rfl

@[simp] theorem numbered_inflight (q : QpConfig) (k : ℕ) (m : Message) :
    (m.numbered k).inflight q = m.inflight q := rfl

theorem numbered_recover (q : QpConfig) {now : ℕ} (k : ℕ)
    (active : m.session.snd.finished = false) :
    (m.recoverMSG q now).numbered k = if m.due q now then (m.numbered k).recover q
      else m.numbered k := by
  unfold Message.recoverMSG Sender.recoverMSG
  split
  · rw [if_neg (by simp [active])]
    rfl
  · rfl

/-! ### The lists -/

namespace QueuePair

theorem Listed.live (L : s.Listed t) (x : SndMsg) : x ∈ t.rdmaMsgsWaiting ++ t.rdmaMsgsSending ↔
    ∃ m, s.msgs[x.msgSeq]? = some m ∧ m.session.snd.finished = false ∧ x = m.numbered x.msgSeq := by
  rw [List.mem_append, L.sending, L.waiting]
  constructor
  · rintro (⟨m, here, active, -, same⟩ | ⟨m, here, active, -, same⟩)
    all_goals exact ⟨m, here, active, same⟩
  · rintro ⟨m, here, active, same⟩
    cases flag : m.session.snd.isSending with
    | false => exact .inl ⟨m, here, active, flag, same⟩
    | true => exact .inr ⟨m, here, active, flag, same⟩

theorem listed_initial (w : ℕ) : Listed { win := w } {} where
  now := rfl
  timer := rfl
  sending _ := ⟨nofun, fun ⟨_, here, _⟩ => nomatch here⟩
  waiting _ := ⟨nofun, fun ⟨_, here, _⟩ => nomatch here⟩
  finished _ := rfl
  keys := List.nodup_nil

theorem getElem?_concat_iff {α : Type} {l : List α} {a b : α} {j : ℕ} :
    (l ++ [a])[j]? = some b ↔ l[j]? = some b ∨ j = l.length ∧ a = b := by
  rcases Nat.lt_trichotomy j l.length with inside | rfl | beyond
  · rw [List.getElem?_append_left inside]
    simp [inside.ne]
  · simp
  · rw [List.getElem?_eq_none (by rw [List.length_append, List.length_singleton]; omega),
      List.getElem?_eq_none beyond.le]
    simp [beyond.ne']

theorem addRdmaOperation_listed {size : ℕ} (lt : size < 2 ^ 32) (L : s.Listed t) :
    Listed { s with msgs := s.msgs ++ [⟨size, lt, {}, s.now⟩] }
      (t.addRdmaOperation ⟨s.msgs.length, size, lt, {}, [], t.now⟩) := by
  have fresh : ∀ x ∈ t.rdmaMsgsWaiting ++ t.rdmaMsgsSending, x.msgSeq ≠ s.msgs.length := by
    intro x member
    obtain ⟨m, here, -⟩ := (L.live x).mp member
    exact (List.getElem?_eq_some_iff.mp here).1.ne
  refine ⟨L.now, L.timer, fun x => ?_, fun x => ?_, fun j => ?_, ?_⟩
  · show x ∈ t.rdmaMsgsSending ++ _ ↔ _
    simp only [List.mem_append, List.mem_singleton, getElem?_concat_iff, L.sending x]
    constructor
    · rintro (⟨m, here, rest⟩ | rfl)
      · exact ⟨m, .inl here, rest⟩
      · exact ⟨⟨size, lt, {}, s.now⟩, .inr ⟨rfl, rfl⟩, rfl, rfl, by rw [L.now]; rfl⟩
    · rintro ⟨m, here | ⟨last, rfl⟩, rest⟩
      · exact .inl ⟨m, here, rest⟩
      · refine .inr (rest.2.2.trans ?_)
        rw [last, L.now]
        rfl
  · show x ∈ t.rdmaMsgsWaiting ↔ _
    simp only [getElem?_concat_iff, L.waiting x]
    constructor
    · rintro ⟨m, here, rest⟩
      exact ⟨m, .inl here, rest⟩
    · rintro ⟨m, here | ⟨-, rfl⟩, active, flag, same⟩
      · exact ⟨m, here, active, flag, same⟩
      · cases flag
  · refine (L.finished j).trans ?_
    rw [Bool.eq_iff_iff, Option.any_eq_true, Option.any_eq_true]
    simp only [getElem?_concat_iff]
    constructor
    · rintro ⟨m, here, done⟩
      exact ⟨m, .inl here, done⟩
    · rintro ⟨m, here | ⟨-, rfl⟩, done⟩
      · exact ⟨m, here, done⟩
      · cases done
  · unfold SndQueuePair.addRdmaOperation
    rw [List.append_assoc]
    refine (List.perm_middle.map SndMsg.msgSeq).nodup_iff.mpr
      (List.nodup_cons.mpr ⟨fun again => ?_, L.keys⟩)
    obtain ⟨x, member, same⟩ := List.mem_map.mp again
    exact fresh x (List.perm_append_comm.mem_iff.mp member) same

/-! ### `ResetMSGRTOTime` -/

theorem listed_inflight {l : List SndMsg} (all : ∀ x ∈ l, ∃ b, x.inflight q = some b) :
    SndQueuePair.allInflightMsgs q l = some (l.filter fun x => x.inflight q = some true) := by
  induction l with
  | nil => rfl
  | cons x rest ih =>
    obtain ⟨b, first⟩ := all x List.mem_cons_self
    have later := ih fun y member => all y (List.mem_cons_of_mem x member)
    unfold SndQueuePair.allInflightMsgs
    simp only [first, later, bind, Option.bind]
    cases b <;> simp [first]

theorem min?_congr {l l' : List ℕ} (same : ∀ a, a ∈ l ↔ a ∈ l') : l.min? = l'.min? := by
  cases least : l'.min? with
  | none =>
    rw [List.min?_eq_none_iff] at least ⊢
    apply List.eq_nil_iff_forall_not_mem.mpr
    intro a member
    rw [same, least] at member
    cases member
  | some a =>
    rw [List.min?_eq_some_iff] at least ⊢
    exact ⟨(same a).mpr least.1, fun b member => least.2 b ((same b).mp member)⟩

theorem resetMSGRTOTime_listed (L : s.Listed t) (h : s.resetMSGRTOTime q = some s') :
    ∃ t', t.resetMSGRTOTime q = .ok t' ∧ s'.Listed t' := by
  obtain ⟨msgs, looked, h⟩ := Option.bind_eq_some_iff.mp h
  obtain ⟨all, mem⟩ := allInflightMsgs_some looked
  have known : ∀ x ∈ t.rdmaMsgsWaiting ++ t.rdmaMsgsSending, ∃ b, x.inflight q = some b := by
    intro x member
    obtain ⟨m, here, active, same⟩ := (L.live x).mp member
    rw [same]
    exact all m (mem_live.mpr ⟨List.mem_of_getElem? here, active⟩)
  have least : (msgs.map Message.lastActionTime).min? =
      (((t.rdmaMsgsWaiting ++ t.rdmaMsgsSending).filter fun x => x.inflight q = some true).map
        SndMsg.lastActionTime).min? := by
    apply min?_congr
    intro a
    simp only [List.mem_map, List.mem_filter, decide_eq_true_eq]
    constructor
    · rintro ⟨m, inside, rfl⟩
      obtain ⟨member, seen⟩ := (mem m).mp inside
      obtain ⟨member, active⟩ := mem_live.mp member
      obtain ⟨k, here⟩ := List.mem_iff_getElem?.mp member
      exact ⟨m.numbered k, ⟨(L.live _).mpr ⟨m, here, active, rfl⟩, seen⟩, rfl⟩
    · rintro ⟨x, ⟨member, seen⟩, rfl⟩
      obtain ⟨m, here, active, same⟩ := (L.live x).mp member
      rw [same] at seen ⊢
      exact ⟨m, (mem m).mpr ⟨mem_live.mpr ⟨List.mem_of_getElem? here, active⟩, seen⟩, rfl⟩
  unfold SndQueuePair.resetMSGRTOTime
  rw [listed_inflight known]
  simp only [orHalt, bind, Except.bind, ← least]
  cases found : (msgs.map Message.lastActionTime).min? with
  | none =>
    rw [found] at h
    cases h
    exact ⟨t, rfl, L⟩
  | some earliest =>
    rw [found] at h
    cases h
    refine ⟨_, rfl, L.now, ?_, L.sending, L.waiting, L.finished, L.keys⟩
    rw [L.now]
    rfl

/-! ### `RecoverMSG` -/

theorem recoverMSG_at (q : QpConfig) (s : QueuePair) (k : ℕ) :
    (s.recoverMSG q).1.msgs[k]? = s.msgs[k]?.map (Message.recoverMSG q s.now) := List.getElem?_map

theorem recoverMSG_finished (q : QpConfig) (now : ℕ) (m : Message) :
    (m.recoverMSG q now).session.snd.finished = m.session.snd.finished := by
  unfold Message.recoverMSG Sender.recoverMSG
  split
  · split <;> rfl
  · rfl

theorem recoverMSG_isSending (q : QpConfig) (now : ℕ) (active : m.session.snd.finished = false) :
    (m.recoverMSG q now).session.snd.isSending = (m.due q now || m.session.snd.isSending) := by
  unfold Message.recoverMSG Sender.recoverMSG
  split
  · rename_i due
    rw [if_neg (by simp [active]), due]
    rfl
  · rename_i early
    rw [Bool.eq_false_of_not_eq_true early]
    rfl

theorem mem_recoverMSG {x : SndMsg} : x ∈ (t.recoverMSG q).rdmaMsgsSending ↔
    (∃ y ∈ t.rdmaMsgsSending, x = if y.due q t.now then y.recover q else y) ∨
      ∃ y ∈ t.rdmaMsgsWaiting, y.due q t.now = true ∧ x = y.recover q := by
  unfold SndQueuePair.recoverMSG
  rw [List.mem_append, (List.perm_insertionSort _ _).mem_iff]
  simp only [List.mem_map, List.mem_filter, and_assoc, eq_comm]

theorem recoverMSG_keys (q : QpConfig) (t : SndQueuePair) :
    (((t.recoverMSG q).rdmaMsgsSending ++ (t.recoverMSG q).rdmaMsgsWaiting).map SndMsg.msgSeq).Perm
      ((t.rdmaMsgsSending ++ t.rdmaMsgsWaiting).map SndMsg.msgSeq) := by
  have stays :
    (t.rdmaMsgsSending.map fun m => if m.due q t.now then m.recover q else m).map SndMsg.msgSeq =
      t.rdmaMsgsSending.map SndMsg.msgSeq := by
    rw [List.map_map]
    refine List.map_congr_left fun x _ => ?_
    simp only [Function.comp_apply]
    split <;> rfl
  have back :
    ((t.rdmaMsgsWaiting.filter (SndMsg.due q t.now)).map (SndMsg.recover q)).map SndMsg.msgSeq =
      (t.rdmaMsgsWaiting.filter (SndMsg.due q t.now)).map SndMsg.msgSeq := by
    rw [List.map_map]
    rfl
  have split := (List.filter_append_perm (SndMsg.due q t.now) t.rdmaMsgsWaiting).map SndMsg.msgSeq
  unfold SndQueuePair.recoverMSG
  simp only [List.map_append, stays, List.append_assoc] at split ⊢
  apply List.Perm.append_left
  refine List.Perm.trans (List.Perm.append_right _ ?_) split
  rw [← back]
  exact (List.perm_insertionSort _ _).map _

theorem recoverMSG_sending (q : QpConfig) (L : s.Listed t) :
    (s.recoverMSG q).1.Lists true (t.recoverMSG q).rdmaMsgsSending := by
  intro x
  rw [mem_recoverMSG, recoverMSG_at, L.now]
  constructor
  · rintro (⟨y, member, rfl⟩ | ⟨y, member, due, rfl⟩)
    · obtain ⟨m, here, active, flag, same⟩ := (L.sending y).mp member
      have number : (if y.due q s.now then y.recover q else y).msgSeq = y.msgSeq := by split <;> rfl
      refine ⟨m.recoverMSG q s.now, ?_, (recoverMSG_finished q s.now m).trans active, ?_, ?_⟩
      · rw [number, here, Option.map_some]
      · rw [recoverMSG_isSending q s.now active, flag, Bool.or_true]
      · rw [number, numbered_recover q _ active, ← same, same, numbered_due]
    · obtain ⟨m, here, active, flag, same⟩ := (L.waiting y).mp member
      have due' : m.due q s.now = true := by
        rw [same] at due
        exact due
      refine ⟨m.recoverMSG q s.now, ?_, (recoverMSG_finished q s.now m).trans active, ?_, ?_⟩
      · show s.msgs[y.msgSeq]?.map _ = _
        rw [here, Option.map_some]
      · rw [recoverMSG_isSending q s.now active, due', Bool.true_or]
      · show y.recover q = (m.recoverMSG q s.now).numbered y.msgSeq
        rw [numbered_recover q _ active, if_pos due', ← same]
  · rintro ⟨m', there, active, flag, same⟩
    obtain ⟨m, here, rfl⟩ := Option.map_eq_some_iff.mp there
    rw [recoverMSG_finished] at active
    rw [recoverMSG_isSending q s.now active, Bool.or_eq_true] at flag
    rw [numbered_recover q _ active] at same
    cases sending : m.session.snd.isSending with
    | true =>
      exact .inl ⟨m.numbered x.msgSeq, (L.sending _).mpr ⟨m, here, active, sending, rfl⟩, same⟩
    | false =>
      have due : m.due q s.now = true := flag.resolve_right (by simp [sending])
      rw [if_pos due] at same
      exact .inr ⟨m.numbered x.msgSeq, (L.waiting _).mpr ⟨m, here, active, sending, rfl⟩, due, same⟩

theorem recoverMSG_waiting (q : QpConfig) (L : s.Listed t) :
    (s.recoverMSG q).1.Lists false (t.recoverMSG q).rdmaMsgsWaiting := by
  intro x
  show x ∈ t.rdmaMsgsWaiting.filter (fun m => !m.due q t.now) ↔ _
  rw [List.mem_filter, recoverMSG_at, L.waiting, L.now, Bool.not_eq_true']
  constructor
  · rintro ⟨⟨m, here, active, flag, same⟩, early⟩
    rw [same, numbered_due] at early
    refine ⟨m.recoverMSG q s.now, by rw [here, Option.map_some],
      (recoverMSG_finished q s.now m).trans active, ?_, ?_⟩
    · rw [recoverMSG_isSending q s.now active, early, flag, Bool.or_false]
    · rw [numbered_recover q _ active, early]
      exact same
  · rintro ⟨m', there, active, flag, same⟩
    obtain ⟨m, here, rfl⟩ := Option.map_eq_some_iff.mp there
    rw [recoverMSG_finished] at active
    rw [recoverMSG_isSending q s.now active, Bool.or_eq_false_iff] at flag
    rw [numbered_recover q _ active, flag.1] at same
    refine ⟨⟨m, here, active, flag.2, same⟩, ?_⟩
    rw [same]
    exact flag.1

/-- A timeout leaves both models in the same state, and both call `m_RTOCallback` or neither
does. -/
theorem recoverMSG_listed (q : QpConfig) (L : s.Listed t) :
    (s.recoverMSG q).1.Listed (t.recoverMSG q) ∧
    (s.recoverMSG q).2 = t.rdmaMsgsWaiting.any (SndMsg.due q t.now) := by
  refine ⟨⟨L.now, rfl, recoverMSG_sending q L, recoverMSG_waiting q L, fun k => ?_,
    (recoverMSG_keys q t).nodup_iff.mpr L.keys⟩, ?_⟩
  · rw [recoverMSG_at]
    refine (L.finished k).trans ?_
    cases s.msgs[k]? with
    | none => rfl
    | some m => exact (recoverMSG_finished q s.now m).symm
  · rw [Bool.eq_iff_iff]
    unfold QueuePair.recoverMSG
    simp only [List.any_eq_true, Bool.and_eq_true, Bool.not_eq_true', L.now]
    constructor
    · rintro ⟨m, member, due, flag⟩
      obtain ⟨member, active⟩ := mem_live.mp member
      obtain ⟨k, here⟩ := List.mem_iff_getElem?.mp member
      exact ⟨m.numbered k, (L.waiting _).mpr ⟨m, here, active, flag, rfl⟩, due⟩
    · rintro ⟨x, member, due⟩
      obtain ⟨m, here, active, flag, same⟩ := (L.waiting x).mp member
      rw [same, numbered_due] at due
      exact ⟨m, mem_live.mpr ⟨List.mem_of_getElem? here, active⟩, due, flag⟩

end QueuePair

end Rdma

end Pyrrha

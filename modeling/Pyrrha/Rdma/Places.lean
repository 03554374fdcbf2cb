import Mathlib.Data.List.Rotate
import Pyrrha.Rdma.Completion
import Pyrrha.Rdma.Lists

/-!
Every message of a sender queue pair is in exactly one of its lists. A routine that moves a message
decides by a flag that was computed before the message could be completed or moved: only a NACK can
come after a completion in the same event, and the NACKs of a correct receiver complete no message.
-/

namespace Pyrrha
open Lib

namespace Rdma

/-! ### The queue pair, its receivers and the network -/

/-- A data packet in flight, with the number and the size of its message. -/
structure DataFlight where
  msgSeq : ℕ
  size : ℕ
  size_lt : size < 2 ^ 32
  pkt : DataPacket

/-- The sender queue pair, the receivers of its messages and the packets in flight. `added` is a
history: the number and size of each message. -/
structure Exchange where
  qp : SndQueuePair := {}
  rcvs : ℕ → Receiver := fun _ => {}
  data : List DataFlight := []
  acks : List (ℕ × AckPacket) := []
  added : List (ℕ × ℕ) := []

/-- A packet in flight is named by its position. `allowed` stands for rate, window and credit
control, `expired` for the clock of the receiver. -/
inductive ExchangeEvent where
  | add (msgSeq size : ℕ)
  | tick (t : ℕ)
  | send (allowed : Bool)
  | timeout
  | irnTimer (msgSeq seq : ℕ)
  | dataArrives (i : ℕ) (expired : Bool)
  | ackArrives (i : ℕ)
  | loseData (i : ℕ)
  | loseAck (i : ℕ)
  | duplicateData (i : ℕ)
  | duplicateAck (i : ℕ)
  deriving DecidableEq

namespace Exchange

def addMessage (s : Exchange) (msgSeq size : ℕ) : Except Halt Exchange :=
  if h : size < 2 ^ 32 ∧ msgSeq ∉ s.added.map Prod.fst then
    .ok { s with
      qp := s.qp.addRdmaOperation ⟨msgSeq, size, h.1, {}, [], s.qp.now⟩
      added := s.added ++ [(msgSeq, size)] }
  else .error .disabled

/-- The device asks the queue pair for a packet. -/
def send (q : SndConfig) (s : Exchange) (allowed : Bool) : Except Halt Exchange := do
  let (qp, ready) ← s.qp.shouldSndData q
  if ready.isSome && allowed then do
    let (qp, m, pkt) ← qp.getNxtPacket q
    .ok { s with qp := qp, data := s.data ++ [⟨m.msgSeq, m.size, m.size_lt, pkt⟩] }
  else .ok { s with qp := qp }

def dataArrives (q : SndConfig) (s : Exchange) (i : ℕ) (expired : Bool) : Except Halt Exchange := do
  let d ← orHalt .disabled s.data[i]?
  let cfg := { q.cfg with size := d.size, size_lt := d.size_lt }
  let (rcv, ack) ← orHalt .other ((s.rcvs d.msgSeq).receiveUdp cfg d.pkt expired)
  .ok { s with
    rcvs := Function.update s.rcvs d.msgSeq rcv
    data := s.data.eraseIdx i
    acks := s.acks ++ ack.toList.map (d.msgSeq, ·) }

def ackArrives (q : SndConfig) (s : Exchange) (i : ℕ) : Except Halt Exchange := do
  let (k, ack) ← orHalt .disabled s.acks[i]?
  let qp ← s.qp.receive q.toQpConfig k ack
  .ok { s with qp := qp, acks := s.acks.eraseIdx i }

def step (q : SndConfig) (s : Exchange) : ExchangeEvent → Except Halt Exchange
  | .add msgSeq size => s.addMessage msgSeq size
  | .tick t =>
    if s.qp.now ≤ t ∧ ∀ e ∈ s.qp.eventTimeoutRetransmission, t ≤ e then
      .ok { s with qp := { s.qp with now := t } }
    else .error .disabled
  | .send allowed => s.send q allowed
  | .timeout =>
    if s.qp.eventTimeoutRetransmission =
      some s.qp.now then .ok { s with qp := s.qp.recoverMSG q.toQpConfig }
    else .error .disabled
  | .irnTimer k seq => do
    let qp ← s.qp.irnTimerHandler q.toQpConfig k seq
    .ok { s with qp := qp }
  | .dataArrives i expired => s.dataArrives q i expired
  | .ackArrives i => s.ackArrives q i
  | .loseData i => .ok { s with data := s.data.eraseIdx i }
  | .loseAck i => .ok { s with acks := s.acks.eraseIdx i }
  | .duplicateData i => (orHalt .disabled s.data[i]?).map fun d => { s with data := s.data ++ [d] }
  | .duplicateAck i =>
      (orHalt .disabled s.acks[i]?).map fun ack => { s with acks := s.acks ++ [ack] }

inductive Reaches (q : SndConfig) : Exchange → Prop where
  | initial : Reaches q {}
  | step {s t : Exchange} {ev : ExchangeEvent} : Reaches q s → s.step q ev = .ok t → Reaches q t

def run (q : SndConfig) (s : Exchange) (evs : List ExchangeEvent) : Except Halt Exchange :=
  evs.foldlM (step q) s

theorem reaches_run {q : SndConfig} {s t : Exchange} {evs : List ExchangeEvent}
    (start : Reaches q s) (ends : run q s evs = .ok t) : Reaches q t :=
  foldlM_preserves (fun _ _ _ _ before call => .step before call) start ends

end Exchange

/-! ### Scans by sequence number -/

theorem find_perm {α : Type} {p : α → Bool} {l : List α} {a : α} (h : l.find? p = some a) :
    l.Perm (a :: l.eraseP p) := by
  induction l with
  | nil => cases h
  | cons x rest ih =>
    by_cases hit : p x = true
    · rw [List.find?_cons_of_pos hit] at h
      cases h
      rw [List.eraseP_cons_of_pos hit]
    · rw [List.find?_cons_of_neg hit] at h
      rw [List.eraseP_cons_of_neg hit]
      exact ((ih h).cons x).trans (.swap a x _)

variable {q : QpConfig} {s t : SndQueuePair} {added : List (ℕ × ℕ)} {m old : SndMsg} {k : ℕ}

def SndMsg.label (m : SndMsg) : ℕ × ℕ := (m.msgSeq, m.size)

theorem find_msg {l : List SndMsg} (distinct : (l.map SndMsg.msgSeq).Nodup) (member : m ∈ l) :
    l.find? (·.msgSeq = m.msgSeq) = some m := by
  cases found : l.find? (·.msgSeq = m.msgSeq) with
  | none => simpa using List.find?_eq_none.mp found m member
  | some x =>
    have same : x.msgSeq = m.msgSeq := by simpa using List.find?_some found
    rw [List.inj_on_of_nodup_map distinct (List.mem_of_find?_eq_some found) member same]

theorem erase_msg {l : List SndMsg} (distinct : (l.map SndMsg.msgSeq).Nodup) (member : m ∈ l) :
    l.Perm (m :: l.eraseP (·.msgSeq = m.msgSeq)) ∧ ∀ x ∈ l.eraseP (·.msgSeq = m.msgSeq), x.msgSeq ≠
      m.msgSeq := by
  have perm := find_perm (find_msg distinct member)
  refine ⟨perm, fun x rest same => ?_⟩
  have apart := (List.nodup_cons.mp ((perm.map SndMsg.msgSeq).nodup distinct)).1
  exact apart (List.mem_map.mpr ⟨x, rest, same⟩)

/-! ### The invariant -/

/-- In go-back-N a message that is not finished has its last byte unacknowledged. -/
def Pending (q : QpConfig) (m : SndMsg) : Prop := q.cfg.mode = .goBackN → m.op.sndUna < m.size ∨
    m.op.sndUna = 0

/-- The added messages are each in one list, and those waiting have nothing to send. The one the
queue pair is `busy` with is in a list, too. -/
structure Placed (q : QpConfig) (added : List (ℕ × ℕ)) (busy : Option ℕ) (s : SndQueuePair) :
    Prop where
  placed : (s.msgs.map SndMsg.label).Perm added
  distinct : (added.map Prod.fst).Nodup
  callback : s.msgCompleteCallback = s.finishedMsgs.map SndMsg.msgSeq
  waiting : ∀ m ∈ s.rdmaMsgsWaiting, busy ≠ some m.msgSeq → m.bytesLeft q = 0
  pending : ∀ m ∈ s.rdmaMsgsSending ++ s.rdmaMsgsWaiting, busy ≠ some m.msgSeq → Pending q m

namespace Placed

variable {busy : Option ℕ}

theorem keys (P : Placed q added busy s) : (s.msgs.map SndMsg.msgSeq).Nodup := by
  have perm := P.placed.map Prod.fst
  rw [List.map_map] at perm
  exact perm.nodup_iff.mpr P.distinct

theorem unique (P : Placed q added busy s) {m m' : SndMsg} (h : m ∈ s.msgs) (h' : m' ∈ s.msgs)
    (same : m.msgSeq = m'.msgSeq) : m = m' := List.inj_on_of_nodup_map P.keys h h' same

theorem keys_sending (P : Placed q added busy s) : (s.rdmaMsgsSending.map SndMsg.msgSeq).Nodup := by
  have nodup := P.keys
  unfold SndQueuePair.msgs at nodup
  rw [List.map_append, List.map_append] at nodup
  exact (List.nodup_append.mp (List.nodup_append.mp nodup).1).1

theorem keys_waiting (P : Placed q added busy s) : (s.rdmaMsgsWaiting.map SndMsg.msgSeq).Nodup := by
  have nodup := P.keys
  unfold SndQueuePair.msgs at nodup
  rw [List.map_append, List.map_append] at nodup
  exact (List.nodup_append.mp (List.nodup_append.mp nodup).1).2.1

theorem apart (P : Placed q added busy s) {m m' : SndMsg} (h : m ∈ s.rdmaMsgsSending)
    (h' : m' ∈ s.rdmaMsgsWaiting) : m.msgSeq ≠ m'.msgSeq := by
  have nodup := P.keys
  unfold SndQueuePair.msgs at nodup
  rw [List.map_append, List.map_append] at nodup
  exact (List.nodup_append.mp (List.nodup_append.mp nodup).1).2.2 _ (List.mem_map_of_mem h) _
    (List.mem_map_of_mem h')

theorem unfinished (P : Placed q added busy s) {m m' : SndMsg}
    (h : m ∈ s.rdmaMsgsSending ++ s.rdmaMsgsWaiting)
    (h' : m' ∈ s.finishedMsgs) : m.msgSeq ≠ m'.msgSeq := by
  have nodup := P.keys
  unfold SndQueuePair.msgs at nodup
  rw [List.map_append] at nodup
  exact (List.nodup_append.mp nodup).2.2 _ (List.mem_map_of_mem h) _ (List.mem_map_of_mem h')

theorem mem_sending (h : m ∈ s.rdmaMsgsSending) : m ∈ s.msgs :=
  List.mem_append_left _ (List.mem_append_left _ h)

theorem mem_waiting (h : m ∈ s.rdmaMsgsWaiting) : m ∈ s.msgs :=
  List.mem_append_left _ (List.mem_append_right _ h)

theorem settle (P : Placed q added (some m.msgSeq) s) (here : m ∈ s.msgs)
    (idle : m ∈ s.rdmaMsgsWaiting → m.bytesLeft q = 0)
    (pending : m ∈ s.rdmaMsgsSending ++ s.rdmaMsgsWaiting → Pending q m) :
    Placed q added none s := by
  refine ⟨P.placed, P.distinct, P.callback, fun x waits _ => ?_, fun x inside _ => ?_⟩
  · by_cases same : x.msgSeq = m.msgSeq
    · obtain rfl := P.unique (mem_waiting waits) here same
      exact idle waits
    · exact P.waiting x waits fun h => same (Option.some.inj h).symm
  · by_cases same : x.msgSeq = m.msgSeq
    · obtain rfl := P.unique (List.mem_append_left _ inside) here same
      exact pending inside
    · exact P.pending x inside fun h => same (Option.some.inj h).symm

theorem idle (P : Placed q added none s) (waits : m ∈ s.rdmaMsgsWaiting) : m.bytesLeft q = 0 :=
  P.waiting m waits (Option.some_ne_none _).symm

theorem unacked (P : Placed q added none s) (inside : m ∈ s.rdmaMsgsSending ++ s.rdmaMsgsWaiting) :
    Pending q m :=
  P.pending m inside (Option.some_ne_none _).symm

theorem busy_with (P : Placed q added none s) (k : ℕ) : Placed q added (some k) s :=
  ⟨P.placed, P.distinct, P.callback, fun x waits _ => P.waiting x waits
    (Option.some_ne_none _).symm, fun x inside _ => P.pending x inside (Option.some_ne_none _).symm⟩

end Placed

/-! ### The operations of the lists -/

theorem mem_update {l : List SndMsg} {x : SndMsg}
    (h : x ∈ l.map fun old => if old.msgSeq = k then m else old) :
    x ∈ l ∧ x.msgSeq ≠ k ∨ x = m ∧ ∃ old ∈ l, old.msgSeq = k := by
  obtain ⟨old, member, rfl⟩ := List.mem_map.mp h
  split
  · rename_i same
    exact .inr ⟨rfl, old, member, same⟩
  · rename_i other
    exact .inl ⟨member, other⟩

theorem update_msgs : (s.update k m).msgs = s.msgs.map fun old => if old.msgSeq = k then m
    else old := by
  simp only [SndQueuePair.msgs, SndQueuePair.update, List.map_append]

theorem update_labels (same : ∀ old ∈ s.msgs, old.msgSeq = k → m.label = old.label) :
    (s.update k m).msgs.map SndMsg.label = s.msgs.map SndMsg.label := by
  rw [update_msgs, List.map_map]
  refine List.map_congr_left fun old member => ?_
  simp only [Function.comp_apply]
  split
  · rename_i here
    exact same old member here
  · rfl

theorem update_placed (P : Placed q added none s) (here : old ∈ s.msgs)
    (label : m.label = old.label) :
    Placed q added (some m.msgSeq) (s.update m.msgSeq m) ∧ m ∈ (s.update m.msgSeq m).msgs := by
  have seq : m.msgSeq = old.msgSeq := congrArg Prod.fst label
  refine ⟨⟨?_, P.distinct, ?_, fun x inside quiet => ?_, fun x inside quiet => ?_⟩, ?_⟩
  · rw [update_labels fun x inside same => by rw [P.unique inside here (same.trans seq), label]]
    exact P.placed
  · refine P.callback.trans ?_
    simp only [SndQueuePair.update, List.map_map]
    refine List.map_congr_left fun x _ => ?_
    simp only [Function.comp_apply]
    split
    · rename_i same
      exact same
    · rfl
  · rcases mem_update inside with ⟨before, _⟩ | ⟨rfl, _⟩
    · exact P.waiting x before (Option.some_ne_none _).symm
    · exact (quiet rfl).elim
  · have inside' : x ∈ (s.rdmaMsgsSending ++ s.rdmaMsgsWaiting).map fun old =>
        if old.msgSeq = m.msgSeq then m else old := by
      rw [List.map_append]
      exact inside
    rcases mem_update inside' with ⟨before, _⟩ | ⟨rfl, _⟩
    · exact P.pending x before (Option.some_ne_none _).symm
    · exact (quiet rfl).elim
  · rw [update_msgs]
    exact List.mem_map.mpr ⟨old, here, if_pos seq.symm⟩

theorem update_kept (P : Placed q added none s) (here : old ∈ s.msgs) (label : m.label = old.label)
    (idle : old ∈ s.rdmaMsgsWaiting → m.bytesLeft q = 0)
    (pending : old ∈ s.rdmaMsgsSending ++ s.rdmaMsgsWaiting → Pending q m) :
    Placed q added none (s.update m.msgSeq m) := by
  have seq : m.msgSeq = old.msgSeq := congrArg Prod.fst label
  have stays : ∀ l ⊆ s.msgs, m ∈ (l.map fun x => if x.msgSeq = m.msgSeq then m else x) →
      old ∈ l := by
    intro l sub inside
    rcases mem_update inside with ⟨-, other⟩ | ⟨-, x, before, same⟩
    · exact (other rfl).elim
    · rw [P.unique here (sub before) (same.trans seq).symm]
      exact before
  obtain ⟨U, inside⟩ := update_placed P here label
  refine U.settle inside (fun waits => idle (stays _ (fun _ => Placed.mem_waiting) waits))
    fun open_ => pending ?_
  refine stays _ (fun _ => List.mem_append_left _) ?_
  rw [List.map_append]
  exact open_

theorem update_sending (P : Placed q added none s) (here : old ∈ s.rdmaMsgsSending)
    (label : m.label = old.label)
    (pending : Pending q m) : Placed q added none (s.update m.msgSeq m) :=
  update_kept P (Placed.mem_sending here) label
    (fun waits => (P.apart here waits rfl).elim) fun _ => pending

theorem moveToWaiting_placed (P : Placed q added none s) (here : m ∈ s.rdmaMsgsSending)
    (idle : m.bytesLeft q = 0) :
    ∃ t, s.moveRdmaOperationToWaiting m.msgSeq = .ok t ∧ Placed q added none t := by
  obtain ⟨perm, -⟩ := erase_msg P.keys_sending here
  have found := find_msg P.keys_sending here
  unfold SndQueuePair.moveRdmaOperationToWaiting
  rw [found]
  have moved : (s.rdmaMsgsSending ++ s.rdmaMsgsWaiting).Perm
      (s.rdmaMsgsSending.eraseP (·.msgSeq = m.msgSeq) ++ (s.rdmaMsgsWaiting ++ [m])) := by
    refine (perm.append_right _).trans ?_
    rw [← List.append_assoc, List.cons_append]
    exact (List.perm_append_singleton _ _).symm
  refine ⟨_, rfl, ?_, P.distinct, P.callback, fun x inside quiet => ?_, fun x inside => ?_⟩
  · exact ((moved.append_right _).map _).symm.trans P.placed
  · rcases List.mem_append.mp inside with before | new
    · exact P.waiting x before quiet
    · exact List.mem_singleton.mp new ▸ idle
  · exact P.pending x (moved.mem_iff.mpr inside)

/-- The message the queue pair is busy with goes back to those that are sent. -/
theorem moveToSending_placed (P : Placed q added (some m.msgSeq) s) (here : m ∈ s.rdmaMsgsWaiting)
    (pending : Pending q m) :
    ∃ t, s.moveRdmaOperationToSending m.msgSeq = .ok t ∧ Placed q added none t ∧
    m ∈ t.rdmaMsgsSending := by
  obtain ⟨perm, others⟩ := erase_msg P.keys_waiting here
  have found := find_msg P.keys_waiting here
  unfold SndQueuePair.moveRdmaOperationToSending
  rw [found]
  have moved : (s.rdmaMsgsSending ++ s.rdmaMsgsWaiting).Perm
      (s.rdmaMsgsSending ++ [m] ++ s.rdmaMsgsWaiting.eraseP (·.msgSeq = m.msgSeq)) := by
    rw [List.append_assoc]
    exact perm.append_left _
  have back : m ∈ s.rdmaMsgsSending ++ [m] := List.mem_append_right _ List.mem_cons_self
  refine ⟨_, rfl, Placed.settle (m := m) ⟨?_, P.distinct, P.callback, fun x inside quiet => ?_,
    fun x inside => ?_⟩ (Placed.mem_sending back) (fun waits => ?_) fun _ => pending, back⟩
  · exact ((moved.append_right _).map _).symm.trans P.placed
  · exact P.waiting x (List.eraseP_subset inside) quiet
  · exact P.pending x (moved.mem_iff.mpr inside)
  · exact (others m waits rfl).elim

theorem msgComplete_placed (P : Placed q added (some m.msgSeq) s)
    (here : m ∈ s.rdmaMsgsSending ++ s.rdmaMsgsWaiting) :
    Placed q added none (s.msgComplete m) := by
  have fresh : s.finishedMsgs.any (·.msgSeq = m.msgSeq) = false := by
    refine List.any_eq_false.mpr fun x done same => ?_
    exact P.unfinished here done (of_decide_eq_true same).symm
  unfold SndQueuePair.msgComplete SndQueuePair.removeRdmaOperation
  rw [if_neg (by rw [fresh]; exact Bool.false_ne_true)]
  have called : s.msgCompleteCallback ++ [m.msgSeq] =
      (s.finishedMsgs ++ [m]).map SndMsg.msgSeq := by
    rw [List.map_append, ← P.callback]
    rfl
  -- What is left has other numbers.
  have done : ∀ t : SndQueuePair, s.msgs.Perm t.msgs →
    t.msgCompleteCallback = t.finishedMsgs.map SndMsg.msgSeq →
      t.finishedMsgs = s.finishedMsgs ++ [m] → t.rdmaMsgsWaiting ⊆ s.rdmaMsgsWaiting →
      t.rdmaMsgsSending ⊆ s.rdmaMsgsSending → Placed q added none t := by
    intro t perm callback finished waiting sending
    have T : Placed q added (some m.msgSeq) t := by
      refine ⟨(perm.map _).symm.trans P.placed, P.distinct, callback,
        fun x h => P.waiting x (waiting h), fun x h => ?_⟩
      refine P.pending x ?_
      rcases List.mem_append.mp h with h | h
      · exact List.mem_append_left _ (sending h)
      · exact List.mem_append_right _ (waiting h)
    have last : m ∈ t.finishedMsgs := by
      rw [finished]
      exact List.mem_append_right _ List.mem_cons_self
    exact T.settle (List.mem_append_right _ last)
      (fun waits => (T.unfinished (List.mem_append_right _ waits) last rfl).elim)
      fun inside => (T.unfinished inside last rfl).elim
  split
  · rename_i waits
    obtain ⟨w, inside, same⟩ := List.any_eq_true.mp waits
    have member : m ∈ s.rdmaMsgsWaiting := by
      rw [P.unique (List.mem_append_left _ here) (Placed.mem_waiting inside)
        (of_decide_eq_true same).symm]
      exact inside
    obtain ⟨perm, -⟩ := erase_msg P.keys_waiting member
    refine done _ ?_ called rfl List.eraseP_subset (List.Subset.refl _)
    refine ((perm.append_left s.rdmaMsgsSending).append_right s.finishedMsgs).trans ?_
    simp only [SndQueuePair.msgs]
    rw [← List.append_assoc _ s.finishedMsgs]
    refine (List.perm_middle.append_right _).trans ?_
    exact (List.perm_append_singleton _ _).symm
  · rename_i absent
    have member : m ∈ s.rdmaMsgsSending := by
      rcases List.mem_append.mp here with sending | waiting
      · exact sending
      · exact (absent (List.any_eq_true.mpr ⟨m, waiting, decide_eq_true rfl⟩)).elim
    obtain ⟨perm, -⟩ := erase_msg P.keys_sending member
    refine done _ ?_ called rfl (List.Subset.refl _) List.eraseP_subset
    refine ((perm.append_right s.rdmaMsgsWaiting).append_right s.finishedMsgs).trans ?_
    simp only [SndQueuePair.msgs]
    rw [← List.append_assoc _ s.finishedMsgs]
    exact (List.perm_append_singleton _ _).symm

theorem recoverMSG_placed (P : Placed q added none s) : Placed q added none (s.recoverMSG q) := by
  have recovered : ∀ m : SndMsg, Pending q m → Pending q (m.recover q) :=
    fun m pending mode => pending mode
  unfold SndQueuePair.recoverMSG
  dsimp only
  refine ⟨?_, P.distinct, P.callback, fun x inside => P.waiting x (List.mem_filter.mp inside).1,
    fun x inside _ => ?_⟩
  · have sent :
      (s.rdmaMsgsSending.map fun m => if m.due q s.now then m.recover q else m).map SndMsg.label =
        s.rdmaMsgsSending.map SndMsg.label := by
      rw [List.map_map]
      refine List.map_congr_left fun x _ => ?_
      simp only [Function.comp_apply]
      split <;> rfl
    have back :
      ((s.rdmaMsgsWaiting.filter (SndMsg.due q s.now)).map (SndMsg.recover q)).map SndMsg.label =
        (s.rdmaMsgsWaiting.filter (SndMsg.due q s.now)).map SndMsg.label := by
      rw [List.map_map]
      rfl
    have split := (List.filter_append_perm (SndMsg.due q s.now) s.rdmaMsgsWaiting).map SndMsg.label
    rw [List.map_append] at split
    refine List.Perm.trans ?_ P.placed
    simp only [SndQueuePair.msgs, List.map_append]
    refine List.Perm.append_right _ ?_
    rw [sent, List.append_assoc]
    refine List.Perm.append_left _ (List.Perm.trans (List.Perm.append_right _ ?_) split)
    rw [← back]
    exact (List.perm_insertionSort _ _).map _
  · rcases List.mem_append.mp inside with sending | waiting
    · rcases List.mem_append.mp sending with stays | back
      · obtain ⟨m, member, rfl⟩ := List.mem_map.mp stays
        have before := P.unacked (List.mem_append_left _ member)
        split
        · exact recovered m before
        · exact before
      · obtain ⟨m, member, rfl⟩ := List.mem_map.mp ((List.perm_insertionSort _ _).mem_iff.mp back)
        exact recovered m (P.unacked (List.mem_append_right _ (List.mem_filter.mp member).1))
    · exact P.unacked (List.mem_append_right _ (List.mem_filter.mp waiting).1)

/-- The program does not stop at an assert about the lists. -/
def Aside (e : Halt) : Prop := e = .other ∨ e = .disabled

theorem aside_orHalt {α : Type} (x : Option α) :
    Outcome (fun a => x = some a) Aside (orHalt .other x) := by
  cases x with
  | none => exact .inl rfl
  | some a => exact rfl

theorem resetMSGRTOTime_placed (P : Placed q added none s) :
    Outcome (fun t => Placed q added none t ∧ t.rdmaMsgsSending = s.rdmaMsgsSending) Aside
      (s.resetMSGRTOTime q) := by
  unfold SndQueuePair.resetMSGRTOTime
  refine outcome_bind (aside_orHalt _) fun msgs _ => ?_
  split
  · exact ⟨P, rfl⟩
  · exact ⟨⟨P.placed, P.distinct, P.callback, P.waiting, P.pending⟩, rfl⟩

theorem find_seq {l : List SndMsg} {x : SndMsg} (found : l.find? (·.msgSeq = k) = some x) : x ∈ l ∧
    x.msgSeq = k :=
  ⟨List.mem_of_find?_eq_some found, by simpa using List.find?_some found⟩

theorem resetLastActionTime_placed (P : Placed q added none s) :
    Outcome (fun t => Placed q added none t ∧
      ∀ m ∈ s.rdmaMsgsSending, ∃ m' ∈ t.rdmaMsgsSending, m'.label = m.label ∧
      m'.bytesLeft q = m.bytesLeft q) Aside
      (s.resetLastActionTime q k) := by
  unfold SndQueuePair.resetLastActionTime
  split
  · exact ⟨P, fun m sending => ⟨m, sending, rfl, rfl⟩⟩
  split
  · rename_i m found
    obtain ⟨here, rfl⟩ := find_seq found
    have only : ∀ x ∈ s.msgs, x.msgSeq = m.msgSeq → x = m :=
      fun x inside same => P.unique inside here same
    have U := update_kept (m := { m with lastActionTime := s.now }) P here rfl P.idle P.unacked
    refine outcome_weaken (resetMSGRTOTime_placed U) ?_
    rintro t ⟨after, sending⟩
    rw [sending]
    refine ⟨after, fun x inside => ⟨_, List.mem_map_of_mem inside, ?_⟩⟩
    split
    · rename_i same
      rw [only x (List.mem_append_left _ (List.mem_append_left _ inside)) same]
      exact ⟨rfl, rfl⟩
    · exact ⟨rfl, rfl⟩
  · exact .inl rfl

theorem getMsg_some {isSending : Bool} (h : s.getMsg k = some (m, isSending)) :
    m.msgSeq = k ∧ (isSending = true ∧ m ∈ s.rdmaMsgsSending ∨ isSending = false ∧
      m ∈ s.rdmaMsgsWaiting) := by
  unfold SndQueuePair.getMsg at h
  split at h
  · rename_i found
    cases h
    exact ⟨(find_seq found).2, .inl ⟨rfl, (find_seq found).1⟩⟩
  · obtain ⟨w, found, same⟩ := Option.map_eq_some_iff.mp h
    cases same
    exact ⟨(find_seq found).2, .inr ⟨rfl, (find_seq found).1⟩⟩

theorem getMsg_none (h : s.getMsg k = none) {x : SndMsg}
    (inside : x ∈ s.rdmaMsgsSending ++ s.rdmaMsgsWaiting) : x.msgSeq ≠ k := by
  unfold SndQueuePair.getMsg at h
  split at h
  · cases h
  · rename_i missing
    have absent := Option.map_eq_none_iff.mp h
    rcases List.mem_append.mp inside with sending | waiting
    · simpa using List.find?_eq_none.mp missing x sending
    · simpa using List.find?_eq_none.mp absent x waiting

/-! ### Sending -/

theorem peekFIFORound_mem {msg : Option SndMsg} {curr : SndMsg}
    (h : SndQueuePair.peekFIFORound q msg curr = some m) :
    msg = some m ∨ curr = m ∧ m.sendable q = true := by
  unfold SndQueuePair.peekFIFORound at h
  split at h
  · rename_i sendable
    split at h
    · cases h
      exact .inr ⟨rfl, sendable⟩
    · split at h
      · cases h
        exact .inr ⟨rfl, sendable⟩
      · exact .inl h
  · exact .inl h

theorem peekFIFOMsg_mem {l : List SndMsg} {msg : Option SndMsg}
    (h : l.foldl (SndQueuePair.peekFIFORound q) msg = some m) : msg = some m ∨ m ∈ l ∧
    m.sendable q = true := by
  induction l generalizing msg with
  | nil => exact .inl h
  | cons x rest ih =>
    rcases ih h with chosen | ⟨later, sendable⟩
    · rcases peekFIFORound_mem chosen with before | ⟨rfl, sendable⟩
      · exact .inl before
      · exact .inr ⟨List.mem_cons_self, sendable⟩
    · exact .inr ⟨List.mem_cons_of_mem x later, sendable⟩

theorem peek_mem {q : SndConfig} (h : s.peek q = some m) :
    m ∈ s.rdmaMsgsSending ∧ m.sendable q.toQpConfig = true := by
  unfold SndQueuePair.peek at h
  split at h
  · rcases peekFIFOMsg_mem h with none | found
    · cases none
    · exact found
  · exact ⟨List.mem_rotate.mp (List.mem_of_find?_eq_some h), List.find?_some h⟩

theorem nextPacket_una {cfg : Config} {op op' : SndOperation} {seq payload : ℕ}
    (mode : cfg.mode = .goBackN)
    (h : Sender.nextPacket cfg op = some (seq, payload, op')) : op' = op ∧
    seq = op.sndNxt % 2 ^ 32 := by
  unfold Sender.nextPacket at h
  rw [if_neg (by simp [mode])] at h
  obtain ⟨⟨first, mid⟩, picked, h⟩ := Option.bind_eq_some_iff.mp h
  unfold SndOperation.nextPsn at picked
  dsimp only at picked
  rw [if_pos (by simp [mode])] at picked
  cases picked
  cases h
  exact ⟨rfl, rfl⟩

theorem shouldSndData_placed {q : SndConfig} (P : Placed q.toQpConfig added none s) :
    Outcome (fun r => Placed q.toQpConfig added none r.1) Aside (s.shouldSndData q) := by
  unfold SndQueuePair.shouldSndData
  split
  · exact P
  rename_i m peeked
  have sending := (peek_mem peeked).1
  split
  · have U := update_sending (m := m.cleaned q.toQpConfig) P sending rfl
      (P.unacked (m := m) (List.mem_append_left _ sending))
    dsimp only
    split
    · rename_i idle
      have here : m.cleaned q.toQpConfig ∈
          (s.update m.msgSeq (m.cleaned q.toQpConfig)).rdmaMsgsSending :=
        List.mem_map.mpr ⟨m, sending, if_pos rfl⟩
      obtain ⟨t, moved, after⟩ := moveToWaiting_placed U here idle.1
      refine outcome_bind (P := Placed q.toQpConfig added none) ?_ fun t after => after
      have call : (s.update m.msgSeq (m.cleaned q.toQpConfig)).moveRdmaOperationToWaiting m.msgSeq =
        .ok t := moved
      show Outcome _ _
        ((s.update m.msgSeq (m.cleaned q.toQpConfig)).moveRdmaOperationToWaiting m.msgSeq)
      rw [call]
      exact after
    · exact U
  · exact P

theorem label_mem (P : Placed q added none s) (here : m ∈ s.msgs) : m.label ∈ added :=
  P.placed.mem_iff.mp (List.mem_map_of_mem here)

theorem putAside_placed (P : Placed q added none s) (here : old ∈ s.rdmaMsgsSending)
    (label : old.label = m.label) (left : old.bytesLeft q = m.bytesLeft q) :
    Outcome (Placed q added none) Aside (s.putAside q m) := by
  unfold SndQueuePair.putAside
  split
  · rename_i idle
    obtain ⟨t, moved, after⟩ := moveToWaiting_placed P here (left.trans idle)
    have same : old.msgSeq = m.msgSeq := congrArg Prod.fst label
    rw [same] at moved
    rw [moved]
    exact after
  · exact P

theorem getNxtPacket_placed {q : SndConfig} (P : Placed q.toQpConfig added none s) :
    Outcome (fun r => Placed q.toQpConfig added none r.1 ∧ r.2.1.label ∈ added ∧
      (q.cfg.mode = .goBackN → r.2.2.seq < r.2.1.size)) Aside (s.getNxtPacket q) := by
  unfold SndQueuePair.getNxtPacket
  refine outcome_bind (aside_orHalt _) fun m peeked => ?_
  obtain ⟨sending, sendable⟩ := peek_mem peeked
  have inside : m ∈ s.msgs := List.mem_append_left _ (List.mem_append_left _ sending)
  refine outcome_bind (aside_orHalt _) ?_
  rintro ⟨seq, payload, op⟩ next
  have pending : Pending q.toQpConfig (m.sent q.toQpConfig seq payload op) := by
    intro mode
    have kind : (m.cfg q.toQpConfig).mode = .goBackN := mode
    obtain ⟨rfl, -⟩ := nextPacket_una kind next
    exact P.unacked (m := m) (List.mem_append_left _ sending) mode
  have U := update_sending P sending (m := m.sent q.toQpConfig seq payload op) rfl pending
  have R : Placed q.toQpConfig added none
      ((s.update m.msgSeq (m.sent q.toQpConfig seq payload op)).setRRLast m.msgSeq) :=
    ⟨U.placed, U.distinct, U.callback, U.waiting, U.pending⟩
  refine outcome_bind (resetLastActionTime_placed R) ?_
  rintro t ⟨T, kept⟩
  obtain ⟨old, there, label, left⟩ := kept _ (List.mem_map.mpr ⟨m, sending, if_pos rfl⟩)
  refine outcome_bind (putAside_placed T there label left) fun u after =>
    ⟨after, label_mem (m := m) P inside, fun mode => ?_⟩
  have kind : (m.cfg q.toQpConfig).mode = .goBackN := mode
  obtain ⟨-, rfl⟩ := nextPacket_una kind next
  have some_left : 0 < m.op.getBytesLeft (m.cfg q.toQpConfig) := by
    unfold SndMsg.sendable SndMsg.bytesLeft at sendable
    simpa [mode] using sendable
  have irn : (m.cfg q.toQpConfig).mode ≠ .irn := by
    show q.cfg.mode ≠ .irn
    simp [mode]
  exact (Nat.mod_le _ _).trans_lt ((bytesLeft_ready irn some_left).goBackN kind)

/-! ### Acknowledgements -/

section Acknowledgements

variable {cfg : Config} {ack : AckPacket} {isSending : Bool}

/-- A message has nothing to send: it has sent its last byte, and schedules no packet again. -/
theorem bytesLeft_zero {op : SndOperation} : op.getBytesLeft cfg = 0 ↔
    (cfg.size ≤ op.sndNxt ∧ ¬(cfg.mode = .disOrder ∧ op.timeouted = true ∧
      op.timeoutPsn.elems ≠ [])) ∧ (cfg.mode = .irn → op.irn.rtxSeqQueues = []) := by
  unfold SndOperation.getBytesLeft
  dsimp only
  have pos := cfg.mtu_pos
  split
  · rename_i mode
    have other : ¬(cfg.mode = .disOrder ∧ op.timeouted = true ∧ op.timeoutPsn.elems ≠ []) := by
      simp [mode]
    rw [if_neg other, Nat.add_eq_zero_iff, List.length_eq_zero_iff, Nat.sub_eq_zero_iff_le]
    simp [mode]
  · rename_i mode
    split
    · rename_i again
      have some_psn : 0 < op.timeoutPsn.elems.length := List.length_pos_iff.mpr again.2.2
      refine ⟨fun none => ?_, fun idle => absurd again idle.1.2⟩
      exfalso
      split at none
      · split at none <;> omega
      · have bytes : 0 < op.timeoutPsn.elems.length * cfg.mtu := Nat.mul_pos some_psn pos
        omega
    · rename_i calm
      rw [Nat.sub_eq_zero_iff_le]
      exact ⟨fun sent => ⟨⟨sent, calm⟩, fun irn => absurd irn mode⟩, fun idle => idle.1.1⟩

theorem acknowledge_frame (cfg : Config) (op : SndOperation) (seq : ℕ) (isLast : Bool) :
    (op.acknowledge cfg seq isLast).sndNxt = op.sndNxt ∧ (op.acknowledge cfg seq isLast).timeouted =
      op.timeouted ∧
      (op.timeoutPsn.elems = [] → (op.acknowledge cfg seq isLast).timeoutPsn.elems = []) := by
  unfold SndOperation.acknowledge
  split
  · dsimp only
    split
    · refine ⟨rfl, rfl, fun none => ?_⟩
      show op.timeoutPsn.elems.erase seq = []
      rw [none]
      rfl
    · exact ⟨rfl, rfl, id⟩
  · split <;> exact ⟨rfl, rfl, id⟩

theorem ackIrnState_rtx (p : ℕ) (irn : SndIrn) (seq : ℕ) : (irn.ackIrnState p seq).rtxSeqQueues =
    irn.rtxSeqQueues := by
  unfold SndIrn.ackIrnState
  split <;> rfl

theorem acknowledge_left {op : SndOperation} {seq : ℕ} {isLast : Bool}
    (idle : op.getBytesLeft cfg = 0) : (op.acknowledge cfg seq isLast).getBytesLeft cfg = 0 := by
  obtain ⟨nxt, flag, psn⟩ := acknowledge_frame cfg op seq isLast
  obtain ⟨⟨sent, calm⟩, rtx⟩ := bytesLeft_zero.mp idle
  refine bytesLeft_zero.mpr ⟨⟨nxt ▸ sent, ?_⟩, fun mode => ?_⟩
  · rintro ⟨mode, timeouted, again⟩
    exact calm ⟨mode, flag ▸ timeouted, fun none => again (psn none)⟩
  · rw [acknowledge_irn]
    exact rtx mode

theorem takeAck_cases (q : QpConfig) (m : SndMsg) (ack : AckPacket) : m.takeAck q ack = (m, false) ∨
    q.cfg.mode = .irn ∧ (m.takeAck q ack).1 = { m with op :=
      ({ m.op with irn := m.op.irn.ackIrnState q.cfg.mtu ack.seq }).acknowledge (m.cfg q) ack.seq ack.last } ∨
    q.cfg.mode ≠ .irn ∧ ∃ seq ≤ ack.seq, m.takeAck q ack =
      ({ m with op := m.op.acknowledge (m.cfg q) seq ack.last },
      (m.op.acknowledge (m.cfg q) seq ack.last).isFinished (m.cfg q)) := by
  unfold SndMsg.takeAck Sender.takeAck
  dsimp only
  split
  · exact .inl rfl
  split
  · rename_i mode
    refine .inr (.inl ⟨mode, ?_⟩)
    split <;> rfl
  · rename_i mode
    have le : (if (m.cfg q).backto0 then ack.seq / (m.cfg q).chunk * (m.cfg q).chunk else ack.seq) ≤
        ack.seq := by
      split
      · exact Nat.div_mul_le_self _ _
      · exact le_refl _
    generalize (if (m.cfg q).backto0 then ack.seq / (m.cfg q).chunk *
      (m.cfg q).chunk else ack.seq) = seq at le ⊢
    refine .inr (.inr ⟨mode, seq, le, ?_⟩)
    split
    · rename_i complete
      rw [complete]
      rfl
    · rename_i short
      rw [Bool.eq_false_of_not_eq_true short]

theorem takeAck_left {m : SndMsg} (idle : m.bytesLeft q = 0) : (m.takeAck q ack).1.bytesLeft q = 0 := by
  rcases takeAck_cases q m ack with same | ⟨-, acked⟩ | ⟨-, seq, -, acked⟩
  · rw [same]
    exact idle
  · rw [acked]
    have cleared : SndOperation.getBytesLeft (m.cfg q)
        { m.op with irn := m.op.irn.ackIrnState q.cfg.mtu ack.seq } = 0 := by
      obtain ⟨sent, rtx⟩ := bytesLeft_zero.mp idle
      exact bytesLeft_zero.mpr ⟨sent, fun mode => (ackIrnState_rtx ..).trans (rtx mode)⟩
    exact acknowledge_left cleared
  · rw [acked]
    exact acknowledge_left idle

theorem acknowledge_una {op : SndOperation} (mode : cfg.mode = .goBackN) (seq : ℕ) (isLast : Bool) :
    (op.acknowledge cfg seq isLast).sndUna = max op.sndUna seq := by
  unfold SndOperation.acknowledge
  rw [if_neg (by simp [mode])]
  split
  · rename_i more
    exact (max_eq_right more.le).symm
  · rename_i less
    exact (max_eq_left (not_lt.mp less)).symm

theorem takeAck_una {m : SndMsg} (mode : q.cfg.mode = .goBackN) : m.takeAck q ack = (m, false) ∨
    ∃ seq ≤ ack.seq, (m.takeAck q ack).1.op.sndUna = max m.op.sndUna seq ∧
      (m.takeAck q ack).2 = decide (m.size ≤ max m.op.sndUna seq) := by
  have kind : (m.cfg q).mode = .goBackN := mode
  rcases takeAck_cases q m ack with same | ⟨irn, -⟩ | ⟨-, seq, le, acked⟩
  · exact .inl same
  · cases mode.symm.trans irn
  · refine .inr ⟨seq, le, ?_⟩
    rw [acked, ← acknowledge_una kind seq ack.last]
    exact ⟨rfl, if_neg (by simp [kind])⟩

/-- A message that an acknowledgement does not complete has its last byte unacknowledged. -/
theorem takeAck_pending {m : SndMsg} (P : Pending q m) (incomplete : (m.takeAck q ack).2 = false) :
    Pending q (m.takeAck q ack).1 := by
  intro mode
  rcases takeAck_una mode with same | ⟨seq, -, una, done⟩
  · rw [same]
    exact P mode
  · left
    rw [done, decide_eq_false_iff_not, not_le] at incomplete
    exact una ▸ incomplete

/-- The acknowledgement of a byte of the message completes none that is pending. -/
theorem takeAck_incomplete {m : SndMsg} (mode : q.cfg.mode = .goBackN) (P : Pending q m)
    (below : ack.seq < m.size) : (m.takeAck q ack).2 = false := by
  rcases takeAck_una mode with same | ⟨seq, le, -, done⟩
  · rw [same]
  · rw [done, decide_eq_false_iff_not, not_le]
    have pending := P mode
    omega

/-- The acknowledgements of a correct receiver: only in go-back-N does it send a NACK, and for a
byte of the message. -/
def Fair (q : QpConfig) (size : ℕ) (ack : AckPacket) : Prop :=
  ack.ackType = .nack → q.cfg.mode = .goBackN ∧ ack.seq < size

/-- The flag says in which list the message is. -/
def Flagged (s : SndQueuePair) (m : SndMsg) (isSending : Bool) : Prop :=
  isSending = true ∧ m ∈ s.rdmaMsgsSending ∨ isSending = false ∧ m ∈ s.rdmaMsgsWaiting

theorem flagged_mem (flag : Flagged s m isSending) :
    m ∈ s.rdmaMsgsSending ++ s.rdmaMsgsWaiting := by
  rcases flag with ⟨-, sending⟩ | ⟨-, waiting⟩
  · exact List.mem_append_left _ sending
  · exact List.mem_append_right _ waiting

theorem flagged_update (m' : SndMsg) (flag : Flagged s m isSending) (label : m'.label = m.label) :
    Flagged (s.update m'.msgSeq m') m' isSending := by
  have same : m.msgSeq = m'.msgSeq := congrArg Prod.fst label.symm
  rcases flag with ⟨set, sending⟩ | ⟨clear, waiting⟩
  · exact .inl ⟨set, List.mem_map.mpr ⟨m, sending, if_pos same⟩⟩
  · exact .inr ⟨clear, List.mem_map.mpr ⟨m, waiting, if_pos same⟩⟩

theorem bringBack_placed (P : Placed q added (some m.msgSeq) s) (flag : Flagged s m isSending)
    (pending : Pending q m) : ∃ t, s.bringBack isSending m.msgSeq = .ok t ∧ Placed q added none t ∧
    m ∈ t.rdmaMsgsSending := by
  rcases flag with ⟨rfl, sending⟩ | ⟨rfl, waiting⟩
  · refine ⟨s, rfl, P.settle (Placed.mem_sending sending) (fun waits => ?_) fun _ =>
      pending, sending⟩
    exact (P.apart sending waits rfl).elim
  · exact moveToSending_placed P waiting pending

theorem takeNack_placed {nack : Bool} (P : Placed q added none s)
    (here : nack = true → Flagged s m isSending) :
    Outcome (Placed q added none) Aside (s.takeNack q m isSending nack) := by
  unfold SndQueuePair.takeNack
  split
  · rename_i reacts
    have flag := here (Bool.and_eq_true_iff.mp reacts).1
    obtain ⟨U, -⟩ :=
      update_placed (m := m.recover q) P (List.mem_append_left _ (flagged_mem flag)) rfl
    have pending : Pending q (m.recover q) := P.unacked (m := m) (flagged_mem flag)
    obtain ⟨t, moved, after, -⟩ := bringBack_placed U (flagged_update _ flag rfl) pending
    have call : (s.update m.msgSeq (m.recover q)).bringBack isSending m.msgSeq = .ok t := moved
    rw [call]
    exact after
  · exact P

theorem finished_of_missing (P : Placed q added none s) (known : k ∈ added.map Prod.fst)
    (missing : s.getMsg k = none) : s.finishedMsgs.any (·.msgSeq = k) = true := by
  obtain ⟨label, member, rfl⟩ := List.mem_map.mp known
  obtain ⟨x, inside, rfl⟩ := List.mem_map.mp (P.placed.mem_iff.mpr member)
  rcases List.mem_append.mp inside with open_ | finished
  · exact (getMsg_none missing open_ rfl).elim
  · exact List.any_eq_true.mpr ⟨x, finished, decide_eq_true rfl⟩

theorem receiveAck_placed (P : Placed q added none s) (known : k ∈ added.map Prod.fst)
    (fair : ∀ size, (k, size) ∈ added → Fair q size ack) :
    Outcome (Placed q added none) Aside (s.receiveAck q k ack) := by
  unfold SndQueuePair.receiveAck
  split
  · rename_i missing
    rw [if_pos (finished_of_missing P known missing)]
    exact P
  · rename_i m isSending found
    obtain ⟨rfl, flag⟩ := getMsg_some found
    have inside : m ∈ s.msgs := List.mem_append_left _ (flagged_mem flag)
    split
    · split
      · exact msgComplete_placed (P.busy_with _) (flagged_mem flag)
      · exact .inl rfl
    dsimp only
    obtain ⟨U, there⟩ := update_placed (m := (m.takeAck q ack).1) P inside rfl
    have flagU : Flagged _ _ isSending := flagged_update (m.takeAck q ack).1 flag rfl
    cases complete : (m.takeAck q ack).2 with
    | true =>
      have other : decide (ack.ackType = .nack) = false := by
        refine decide_eq_false fun nack => ?_
        obtain ⟨mode, below⟩ := fair m.size (label_mem P inside) nack
        have open_ : (m.takeAck q ack).2 = false :=
          takeAck_incomplete mode (P.unacked (flagged_mem flag)) below
        cases complete.symm.trans open_
      rw [other, if_pos rfl]
      have done := msgComplete_placed U (flagged_mem flagU)
      refine outcome_bind (takeNack_placed done fun nack => ?_) fun t after => ?_
      · cases nack
      · exact outcome_weaken (resetLastActionTime_placed after) fun _ => And.left
    | false =>
      rw [if_neg Bool.false_ne_true]
      have kept := update_kept (m := (m.takeAck q ack).1) P inside rfl
        (fun waits => takeAck_left (P.idle waits)) fun open_ =>
          takeAck_pending (P.unacked open_) complete
      refine outcome_bind (takeNack_placed kept fun _ => flagU) fun t after => ?_
      exact outcome_weaken (resetLastActionTime_placed after) fun _ => And.left

theorem receiveSack_placed (P : Placed q added none s) (known : k ∈ added.map Prod.fst) :
    Outcome (Placed q added none) Aside (s.receiveSack q k ack) := by
  unfold SndQueuePair.receiveSack
  split
  · exact .inl rfl
  rename_i irn
  rw [not_not] at irn
  have pending : ∀ m : SndMsg, Pending q m := fun m mode => by
    rw [irn] at mode
    cases mode
  split
  · rename_i missing
    rw [if_pos (finished_of_missing P known missing)]
    exact P
  · rename_i m isSending found
    obtain ⟨rfl, flag⟩ := getMsg_some found
    have inside : m ∈ s.msgs := List.mem_append_left _ (flagged_mem flag)
    split
    · split
      · exact msgComplete_placed (P.busy_with _) (flagged_mem flag)
      · exact .inl rfl
    split
    · exact P
    refine outcome_bind (aside_orHalt _) fun rtx _ => ?_
    dsimp only
    generalize m.op.irn.sackIrnState q.cfg.mtu ack.seq ack.nackSeq = irn
    obtain ⟨U, -⟩ := update_placed
      (m := m.withIrn { irn with rtxSeqQueues := irn.rtxSeqQueues ++ rtx }) P inside rfl
    obtain ⟨t, moved, after, sending⟩ := bringBack_placed U (flagged_update _ flag rfl) (pending _)
    simp only [SndMsg.withIrn_msgSeq] at moved
    refine outcome_bind (P := fun u => u = t) ?_ ?_
    · rw [moved]
      exact rfl
    · rintro u rfl
      show Placed q added none _
      split
      · exact msgComplete_placed (after.busy_with _) (List.mem_append_left _ sending)
      · exact after

theorem receive_placed (P : Placed q added none s) (known : k ∈ added.map Prod.fst)
    (fair : ∀ size, (k, size) ∈ added → Fair q size ack) :
    Outcome (Placed q added none) Aside (s.receive q k ack) := by
  unfold SndQueuePair.receive
  split
  · exact receiveAck_placed P known fair
  · exact receiveAck_placed P known fair
  · exact receiveSack_placed P known

theorem getMsg_flagged (P : Placed q added (some k) s) (flag : Flagged s m isSending) :
    s.getMsg m.msgSeq = some (m, isSending) := by
  unfold SndQueuePair.getMsg
  rcases flag with ⟨rfl, sending⟩ | ⟨rfl, waiting⟩
  · rw [find_msg P.keys_sending sending]
  · have absent : s.rdmaMsgsSending.find? (·.msgSeq = m.msgSeq) = none := by
      refine List.find?_eq_none.mpr fun x sending => ?_
      exact fun same => P.apart sending waiting (of_decide_eq_true same)
    rw [absent, find_msg P.keys_waiting waiting]
    rfl

theorem irnTimerHandler_placed {seq : ℕ} (P : Placed q added none s) :
    Outcome (Placed q added none) Aside (s.irnTimerHandler q k seq) := by
  unfold SndQueuePair.irnTimerHandler
  split
  · exact .inr rfl
  rename_i m found
  obtain ⟨here, rfl⟩ := find_seq found
  split
  · exact .inr rfl
  split
  · dsimp only
    generalize m.op.irn.setSeqState q.cfg.mtu seq .nack = irn
    obtain ⟨U, there⟩ := update_placed
      (m := m.withIrn { irn with rtxSeqQueues := irn.rtxSeqQueues ++ [seq] }) P here rfl
    rcases List.mem_append.mp here with unfinished | finished
    · have flagged : ∃ isSending, Flagged s m isSending := by
        rcases List.mem_append.mp unfinished with sending | waiting
        · exact ⟨true, .inl ⟨rfl, sending⟩⟩
        · exact ⟨false, .inr ⟨rfl, waiting⟩⟩
      obtain ⟨isSending, flag⟩ := flagged
      have flagU :=
        flagged_update (m.withIrn { irn with rtxSeqQueues := irn.rtxSeqQueues ++ [seq] }) flag rfl
      have got := getMsg_flagged U flagU
      obtain ⟨t, moved, after, -⟩ := bringBack_placed U flagU (P.unacked (m := m) unfinished)
      simp only [SndMsg.withIrn_msgSeq] at got moved
      rw [got]
      show Outcome _ _ (SndQueuePair.bringBack _ isSending m.msgSeq)
      rw [moved]
      exact after
    · have done : m.withIrn { irn with rtxSeqQueues := irn.rtxSeqQueues ++ [seq] } ∈
          (s.update m.msgSeq
            (m.withIrn { irn with rtxSeqQueues := irn.rtxSeqQueues ++ [seq] })).finishedMsgs :=
        List.mem_map.mpr ⟨m, finished, if_pos rfl⟩
      have missing : (s.update m.msgSeq
        (m.withIrn { irn with rtxSeqQueues := irn.rtxSeqQueues ++ [seq] })).getMsg
          m.msgSeq = none := by
        refine Option.eq_none_iff_forall_not_mem.mpr fun found got => ?_
        obtain ⟨same, flag⟩ := getMsg_some got
        exact U.unfinished (flagged_mem flag) done same
      rw [missing]
      exact U.settle there
        (fun waits => (U.unfinished (List.mem_append_right _ waits) done rfl).elim)
        fun inside => (U.unfinished inside done rfl).elim
  · exact P

end Acknowledgements

/-! ### Runs -/

theorem answer_nack {cfg : Config} {x : SeqCheck} {all : Bool}
    (h : RxOperation.answer cfg x all = .nack) : x = .nack ∧ cfg.mode ≠ .disOrder := by
  unfold RxOperation.answer at h
  dsimp only at h
  split at h
  · split at h <;> cases h
  split at h
  · cases h
  · rename_i mode
    exact ⟨h, mode⟩

theorem checkSeq_nack {cfg : Config} {rx : RxOperation} {seq size : ℕ} {expired : Bool}
    (h : (rx.checkSeq cfg seq size expired).2 = .nack) :
    (rx.checkSeq cfg seq size expired).1.nextExpectedSeq < seq := by
  have back : rx.nextExpectedSeq / cfg.chunk * cfg.chunk ≤ rx.nextExpectedSeq :=
    Nat.div_mul_le_self _ _
  unfold RxOperation.checkSeq at h ⊢
  dsimp only at h ⊢
  split at h
  · split at h
    · cases h
    · dsimp only at h
      split at h <;> cases h
  rename_i unexpected
  rw [if_neg unexpected]
  split at h
  · rename_i later
    split at h
    · rename_i asked
      rw [if_pos later, if_pos asked]
      dsimp only
      split <;> omega
    · cases h
  · cases h

theorem receiveUdp_nack {cfg : Config} {r r' : Receiver} {pkt : DataPacket} {expired : Bool}
    {ack : AckPacket}
    (h : r.receiveUdp cfg pkt expired = some (r', some ack)) (nack : ack.ackType = .nack) :
    cfg.mode = .goBackN ∧ ack.seq < pkt.seq := by
  cases irn : decide (cfg.mode = .irn) with
  | true => exact (receiveUdp_kind (of_decide_eq_true irn) h ack rfl nack).elim
  | false =>
    have other : ¬cfg.mode = .irn := of_decide_eq_false irn
    rcases receiveUdp_cases h with ⟨-, -, none⟩ | ⟨-, rx, x, nackSeq, check, -, outcome⟩
    · cases none
    rcases outcome with ⟨-, -, none⟩ | ⟨_, -, -, -, x', replied, answers, same⟩
    · cases none
    cases same
    unfold RxOperation.ackFor at nack ⊢
    rw [if_neg fun sack => other sack.1] at nack ⊢
    have refused : x' = .nack := by
      rcases answers with rfl | rfl
      · cases nack
      · rfl
    obtain ⟨rfl, ordered⟩ := answer_nack (replied.symm.trans refused)
    have mode : cfg.mode = .goBackN := by
      cases kind : cfg.mode with
      | goBackN => rfl
      | disOrder => exact (ordered kind).elim
      | irn => exact (other kind).elim
    refine ⟨mode, ?_⟩
    dsimp only
    rw [if_pos mode]
    unfold RxOperation.receiverCheckSeq at check
    rw [if_neg other] at check
    obtain ⟨rfl, same⟩ := Prod.mk.inj (Option.some.inj check)
    exact checkSeq_nack (Prod.mk.inj same).1

namespace Exchange

variable {q : SndConfig} {s t : Exchange}

/-- The messages are in their places, data packets are of an added message, and its receiver answers
fairly. -/
structure Kept (q : SndConfig) (s : Exchange) : Prop where
  qp : Placed q.toQpConfig s.added none s.qp
  data : ∀ d ∈ s.data, (d.msgSeq, d.size) ∈ s.added ∧ (q.cfg.mode = .goBackN → d.pkt.seq < d.size)
  acks : ∀ ack ∈ s.acks, ∃ size, (ack.1, size) ∈ s.added ∧ Fair q.toQpConfig size ack.2

theorem addMessage_kept {msgSeq size : ℕ} (K : Kept q s) :
    Outcome (Kept q) Aside (s.addMessage msgSeq size) := by
  unfold addMessage
  split
  · rename_i fresh
    have grows : ∀ label ∈ s.added, label ∈ s.added ++ [(msgSeq, size)] :=
      fun _ => List.mem_append_left _
    have P := K.qp
    refine ⟨⟨?_, ?_, P.callback, P.waiting, fun m inside _ => ?_⟩, fun d flies => ?_,
      fun ack flies => ?_⟩
    · refine List.Perm.trans ?_ (P.placed.append_right [(msgSeq, size)])
      have before : s.qp.msgs.map SndMsg.label = s.qp.rdmaMsgsSending.map SndMsg.label ++
          (s.qp.rdmaMsgsWaiting ++ s.qp.finishedMsgs).map SndMsg.label := by
        rw [← List.map_append, ← List.append_assoc]
        rfl
      have after :
        (s.qp.addRdmaOperation ⟨msgSeq, size, fresh.1, {}, [], s.qp.now⟩).msgs.map SndMsg.label =
          s.qp.rdmaMsgsSending.map SndMsg.label ++
            (msgSeq, size) :: (s.qp.rdmaMsgsWaiting ++ s.qp.finishedMsgs).map SndMsg.label := by
        simp [SndQueuePair.msgs, SndQueuePair.addRdmaOperation, SndMsg.label]
      rw [before, after]
      exact List.perm_middle.trans (List.perm_append_singleton _ _).symm
    · rw [List.map_append]
      refine List.nodup_append.mpr ⟨P.distinct, List.nodup_singleton _,
        fun a old b new same => fresh.2 ?_⟩
      have key : b = msgSeq := List.mem_singleton.mp new
      rw [← key, ← same]
      exact old
    · rcases List.mem_append.mp inside with sending | waiting
      · rcases List.mem_append.mp sending with old | new
        · exact P.unacked (List.mem_append_left _ old)
        · rw [List.mem_singleton.mp new]
          exact fun _ => .inr rfl
      · exact P.unacked (List.mem_append_right _ waiting)
    · exact ⟨grows _ (K.data d flies).1, (K.data d flies).2⟩
    · obtain ⟨size', known, fair⟩ := K.acks ack flies
      exact ⟨size', grows _ known, fair⟩
  · exact .inr rfl

theorem send_kept {allowed : Bool} (K : Kept q s) : Outcome (Kept q) Aside (s.send q allowed) := by
  unfold send
  refine outcome_bind (shouldSndData_placed K.qp) ?_
  rintro ⟨qp, ready⟩ P
  dsimp only
  split
  · refine outcome_bind (getNxtPacket_placed P) ?_
    rintro ⟨qp, m, pkt⟩ ⟨after, label, below⟩
    refine ⟨after, fun d flies => ?_, K.acks⟩
    rcases List.mem_append.mp flies with old | new
    · exact K.data d old
    · rw [List.mem_singleton.mp new]
      exact ⟨label, below⟩
  · exact ⟨P, K.data, K.acks⟩

theorem aside_event {α : Type} (x : Option α) : Outcome (fun a => x = some a) Aside
    (orHalt .disabled x) := by
  cases x with
  | none => exact .inr rfl
  | some a => exact rfl

theorem dataArrives_kept {i : ℕ} {expired : Bool} (K : Kept q s) :
    Outcome (Kept q) Aside (s.dataArrives q i expired) := by
  unfold dataArrives
  refine outcome_bind (aside_event _) fun d here => ?_
  refine outcome_bind (aside_orHalt _) ?_
  rintro ⟨rcv, answered⟩ received
  obtain ⟨known, below⟩ := K.data d (List.mem_of_getElem? here)
  refine ⟨K.qp, fun x flies => K.data x (List.mem_of_mem_eraseIdx flies), fun ack flies => ?_⟩
  rcases List.mem_append.mp flies with old | new
  · exact K.acks ack old
  · obtain ⟨a, present, rfl⟩ := List.mem_map.mp new
    refine ⟨d.size, known, fun nack => ?_⟩
    rw [Option.mem_toList.mp present] at received
    obtain ⟨mode, before⟩ := receiveUdp_nack received nack
    exact ⟨mode, before.trans (below mode)⟩

theorem ackArrives_kept {i : ℕ} (K : Kept q s) : Outcome (Kept q) Aside (s.ackArrives q i) := by
  unfold ackArrives
  refine outcome_bind (aside_event _) ?_
  rintro ⟨k, ack⟩ here
  obtain ⟨size, known, fair⟩ := K.acks _ (List.mem_of_getElem? here)
  have only : ∀ size', (k, size') ∈ s.added → Fair q.toQpConfig size' ack := by
    intro size' known'
    have same := List.inj_on_of_nodup_map K.qp.distinct known known' rfl
    cases same
    exact fair
  refine outcome_bind (receive_placed K.qp (List.mem_map.mpr ⟨_, known, rfl⟩) only) fun qp P => ?_
  exact ⟨P, K.data, fun x flies => K.acks x (List.mem_of_mem_eraseIdx flies)⟩

/-- One event keeps the messages in their places, and fails no assert about them. -/
theorem step_kept (ev : ExchangeEvent) (K : Kept q s) : Outcome (Kept q) Aside (s.step q ev) := by
  cases ev with
  | add msgSeq size => exact addMessage_kept K
  | tick t =>
    dsimp only [step]
    split
    · exact ⟨⟨K.qp.placed, K.qp.distinct, K.qp.callback, K.qp.waiting, K.qp.pending⟩,
        K.data, K.acks⟩
    · exact .inr rfl
  | send allowed => exact send_kept K
  | timeout =>
    dsimp only [step]
    split
    · exact ⟨recoverMSG_placed K.qp, K.data, K.acks⟩
    · exact .inr rfl
  | irnTimer k seq =>
      exact outcome_bind (irnTimerHandler_placed K.qp) fun qp P => ⟨P, K.data, K.acks⟩
  | dataArrives i expired => exact dataArrives_kept K
  | ackArrives i => exact ackArrives_kept K
  | loseData i => exact ⟨K.qp, fun d flies => K.data d (List.mem_of_mem_eraseIdx flies), K.acks⟩
  | loseAck i => exact ⟨K.qp, K.data, fun ack flies => K.acks ack (List.mem_of_mem_eraseIdx flies)⟩
  | duplicateData i =>
    refine outcome_map (outcome_weaken (aside_event _) fun d here => ?_)
    exact ⟨K.qp, fun x flies => K.data x (append_copy here flies), K.acks⟩
  | duplicateAck i =>
    refine outcome_map (outcome_weaken (aside_event _) fun ack here => ?_)
    exact ⟨K.qp, K.data, fun x flies => K.acks x (append_copy here flies)⟩

theorem reaches_kept (reach : Reaches q s) : Kept q s := by
  induction reach with
  | initial =>
    refine ⟨⟨.refl _, List.nodup_nil, rfl, fun m waits => ?_, fun m inside => ?_⟩,
      fun d flies => ?_, fun ack flies => ?_⟩
    · cases waits
    · cases inside
    · cases flies
    · cases flies
  | step _ call ih => exact outcome_result (step_kept _ ih) call

/-- Every message that was added is in exactly one of the lists, and there once; no event fails the
assert of a routine that moves one; `m_msgCompleteCallback` is called once for each message that is
finished; and a waiting message has nothing to send. -/
theorem messages_placed (reach : Reaches q s) :
    (s.qp.msgs.map SndMsg.label).Perm s.added ∧ (s.added.map Prod.fst).Nodup ∧
      (∀ ev, s.step q ev ≠ .error .moveToWaiting ∧ s.step q ev ≠ .error .moveToSending) ∧
      s.qp.msgCompleteCallback = s.qp.finishedMsgs.map SndMsg.msgSeq ∧
      s.qp.msgCompleteCallback.Nodup ∧
      ∀ m ∈ s.qp.rdmaMsgsWaiting, m.bytesLeft q.toQpConfig = 0 := by
  have K := reaches_kept reach
  refine ⟨K.qp.placed, K.qp.distinct, fun ev => ?_, K.qp.callback, ?_,
    fun m waits => K.qp.idle waits⟩
  · have aside := step_kept ev K
    refine ⟨fun stop => ?_, fun stop => ?_⟩
    all_goals
      rw [stop] at aside
      rcases aside with h | h <;> cases h
  · rw [K.qp.callback]
    have keys := K.qp.keys
    unfold SndQueuePair.msgs at keys
    rw [List.map_append] at keys
    exact (List.nodup_append.mp keys).2.1

/-- Two messages: the second is complete, and the first packet of the other is lost. -/
def lostFirst : List ExchangeEvent :=
  [.add 7 25, .add 3 10, .send true, .send true, .send true, .send true, .dataArrives 0 false,
    .ackArrives 0, .loseData 0, .dataArrives 0 true, .ackArrives 0]

def smallSnd : SndConfig := ⟨⟨Session.smallConfig .goBackN 0, 1, true⟩, .fifo⟩

theorem messages_placed_back : ∃ s : Exchange, Reaches smallSnd s ∧
    s.qp.rdmaMsgsSending.map SndMsg.msgSeq = [7] ∧ s.qp.rdmaMsgsWaiting = [] ∧
    s.qp.msgCompleteCallback = [3] ∧
    (s.qp.msgs.map SndMsg.label).Perm s.added := by
  have ends : (run smallSnd {} lostFirst).toOption.any (fun s =>
      decide (s.qp.rdmaMsgsSending.map SndMsg.msgSeq = [7]) && s.qp.rdmaMsgsWaiting.isEmpty &&
        decide (s.qp.msgCompleteCallback = [3])) = true := by decide +kernel
  obtain ⟨s, run, shape⟩ := (Option.any_eq_true ..).mp ends
  have reach : Reaches smallSnd s := reaches_run .initial (toOption_eq_some.mp run)
  rw [Bool.and_eq_true, Bool.and_eq_true, List.isEmpty_iff] at shape
  exact ⟨s, reach, of_decide_eq_true shape.1.1, shape.1.2, of_decide_eq_true shape.2,
    (messages_placed reach).1⟩

end Exchange

end Rdma

end Pyrrha

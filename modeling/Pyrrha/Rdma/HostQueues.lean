import Pyrrha.Lib.Checked
import Pyrrha.Lib.Tally
import Pyrrha.Lib.Update
import Pyrrha.Switch.Data

/-!
`queue_allocate_in_host`: the queues of the NICs of a host that `AddQueuePair` and `RedistributeQp`
take for the queue pairs and `MsgComplete` gives back.
-/

namespace Pyrrha
open Lib

namespace HostQueues

/-- `RdmaSndQueuePair`: `msgs` are the messages in `rdma_msgs_sending` and `rdma_msgs_waiting`,
`finished` those of `m_finished_msgs`, by their `m_msgSeq`. -/
structure Qp where
  qpid : UInt32
  sip : UInt32
  dip : UInt32
  queueId : Fin queueNum
  msgs : List UInt32
  finished : List UInt32 := []
  deriving DecidableEq

/-- A host with `n` NICs. `queueSize` is `m_queue_size` of each; `m_qpMap` has one entry a key. -/
structure Host (n : ℕ) where
  rtTable : UInt32 → List (Fin n)
  qpMap : List Qp := []
  queueSize : Fin n → Fin queueNum → ℕ := fun _ _ => 0

/-- The asserts of `GetNicIdxOfSndQp` and `UpdateQueueforFlow`. -/
inductive Fault where
  | noNic | emptyQueue
  deriving DecidableEq, Repr

variable {n : ℕ}

/-! ### The NIC and its queues -/

/-- `GetNicIdxOfSndQp`; `hash` is `GetHash` of the addresses and the id. -/
def getNicIdx (hash : UInt32 → UInt32 → UInt32 → ℕ) (rtTable : UInt32 → List (Fin n))
    (sip dip qpid : UInt32) : Except Fault (Fin n) :=
  let v := rtTable dip
  (v[hash sip dip qpid % v.length]?).elim (.error .noNic) .ok

/-- `GetQueueforFlow`: the first empty queue from 1 on, or one at random. -/
def getQueueforFlow (sizes : Fin queueNum → ℕ) (rand : ℕ) : Fin queueNum :=
  ((List.finRange queueNum).tail.find? fun i => decide (sizes i = 0)).getD
    ⟨rand % (queueNum - 1) + 1, Nat.succ_lt_succ (Nat.mod_lt rand (by decide))⟩

/-- `UpdateQueueforFlow` with `true`. -/
def takeQueue (queueSize : Fin n → Fin queueNum → ℕ) (nic : Fin n) (q : Fin queueNum) : Fin n →
    Fin queueNum → ℕ :=
  update₂ queueSize nic q (queueSize nic q + 1)

/-- `UpdateQueueforFlow` with `false`. -/
def releaseQueue (queueSize : Fin n → Fin queueNum → ℕ) (nic : Fin n) (q : Fin queueNum) :
    Except Fault (Fin n → Fin queueNum → ℕ) :=
  if 0 < queueSize nic q then .ok (update₂ queueSize nic q (queueSize nic q - 1))
    else .error .emptyQueue

/-! ### RdmaHw -/

variable (hash : UInt32 → UInt32 → UInt32 → ℕ)

namespace Host

/-- The entry of `m_qpMap` for a key, with its place. -/
def find (s : Host n) (qpid : UInt32) : Option (Qp × ℕ) :=
  s.qpMap.zipIdx.find? fun it => decide (it.1.qpid = qpid)

def nicOf (s : Host n) (qp : Qp) : Except Fault (Fin n) :=
  getNicIdx hash s.rtTable qp.sip qp.dip qp.qpid

/-- `AddQueuePair`. In the end it asks for the NIC of the queue pair once more, to trigger a
transmission. -/
def addQueuePair (s : Host n) (sip dip qpid msgSeq : UInt32) (rand : ℕ) : Except Fault (Host n) :=
  match s.find qpid with
  | none => do
    let nic ← getNicIdx hash s.rtTable sip dip qpid
    let queueId := getQueueforFlow (s.queueSize nic) rand
    .ok { s with
      qpMap := s.qpMap ++ [{ qpid, sip, dip, queueId, msgs := [msgSeq] }]
      queueSize := takeQueue s.queueSize nic queueId }
  | some (qp, k) => do
    let _ ← s.nicOf hash qp
    .ok { s with qpMap := s.qpMap.set k { qp with msgs := qp.msgs ++ [msgSeq] } }

/-- `MsgComplete` as its callers reach it: for a message that `GetMsg` finds. -/
def msgComplete (s : Host n) (qpid msgSeq : UInt32) : Except Fault (Host n) :=
  match s.find qpid with
  | none => .ok s
  | some (qp, k) =>
    if msgSeq ∉ qp.msgs ∨ msgSeq ∈ qp.finished then .ok s
    else do
      let nic ← s.nicOf hash qp
      let queueSize ← releaseQueue s.queueSize nic qp.queueId
      .ok { s with
        qpMap :=
          s.qpMap.set k { qp with msgs := qp.msgs.erase msgSeq, finished := msgSeq :: qp.finished }
        queueSize }

/-- One turn of the loop of `RedistributeQp`: the place in the map, and the random number it may
need. -/
def reassign (s : Host n) (turn : ℕ × ℕ) : Except Fault (Host n) :=
  match s.qpMap[turn.1]? with
  | none => .ok s
  | some qp => do
    let nic ← s.nicOf hash qp
    let queueId := getQueueforFlow (s.queueSize nic) turn.2
    .ok { s with
      qpMap := s.qpMap.set turn.1 { qp with queueId }
      queueSize := takeQueue s.queueSize nic queueId }

/-- What `TakeDownLink` does at a host: the routes are set again, then `RedistributeQp` visits the
map in the order of `turns`. -/
def redistributeQp (s : Host n) (rtTable : UInt32 → List (Fin n)) (turns : List (ℕ × ℕ)) :
    Except Fault (Host n) :=
  turns.foldlM (reassign hash) { s with rtTable }

end Host

/-! ### Runs -/

inductive Event (n : ℕ) where
  | addQueuePair (sip dip qpid msgSeq : UInt32) (rand : ℕ)
  | msgComplete (qpid msgSeq : UInt32)
  | redistributeQp (rtTable : UInt32 → List (Fin n)) (turns : List (ℕ × ℕ))

namespace Host

def step (s : Host n) : Event n → Except Fault (Host n)
  | .addQueuePair sip dip qpid msgSeq rand => s.addQueuePair hash sip dip qpid msgSeq rand
  | .msgComplete qpid msgSeq => s.msgComplete hash qpid msgSeq
  | .redistributeQp rtTable turns => s.redistributeQp hash rtTable turns

inductive Reachable (allowed : Host n → Event n → Prop) : Host n → Prop where
  | initial (rtTable : UInt32 → List (Fin n)) : Reachable allowed { rtTable }
  | step {s t : Host n} {ev : Event n} : Reachable allowed s → allowed s ev →
      s.step hash ev = .ok t → Reachable allowed t

/-- Every message comes with a queue pair of its own, and links change only while there is none. -/
def Paired (s : Host n) : Event n → Prop
  | .addQueuePair _ _ qpid _ _ => s.find qpid = none
  | .msgComplete _ _ => True
  | .redistributeQp _ _ => s.qpMap = []

/-- What holds a queue: a message that is not complete, or a queue pair with such a message. -/
inductive Holder where
  | message | queuePair

def Holder.weight : Holder → Qp → ℕ
  | .message, qp => qp.msgs.length
  | .queuePair, qp => if qp.msgs = [] then 0 else 1

/-- Whether a queue pair is assigned to queue `q` of a NIC. -/
def assigned (s : Host n) (nic : Fin n) (q : Fin queueNum) (qp : Qp) : Bool :=
  match s.nicOf hash qp with
  | .ok nic' => decide (nic' = nic ∧ qp.queueId = q)
  | .error _ => false

/-- Every counter is the number of holders of its queue. -/
def Balanced (unit : Holder) (s : Host n) : Prop :=
  ∀ nic q, s.queueSize nic q = tally unit.weight (s.assigned hash nic q) s.qpMap

/-! ### One step -/

variable {hash} {s t : Host n}

theorem find_some {qpid : UInt32} {qp : Qp} {k : ℕ} (h : s.find qpid = some (qp, k)) :
    s.qpMap[k]? = some qp :=
  List.mem_zipIdx_iff_getElem?.mp (List.mem_of_find?_eq_some h)

theorem assigned_congr {t : Host n} {nic : Fin n} {q : Fin queueNum} {qp qp' : Qp}
    (routes : t.rtTable = s.rtTable)
    (sip : qp'.sip = qp.sip) (dip : qp'.dip = qp.dip) (qpid : qp'.qpid = qp.qpid)
    (queue : qp'.queueId = qp.queueId) : t.assigned hash nic q qp' = s.assigned hash nic q qp := by
  unfold assigned nicOf
  rw [routes, sip, dip, qpid, queue]

theorem assigned_nic {nic nic' : Fin n} {q : Fin queueNum} {qp : Qp}
    (there : s.nicOf hash qp = .ok nic) :
    s.assigned hash nic' q qp = decide (nic = nic' ∧ qp.queueId = q) := by
  unfold assigned
  rw [there]

theorem nicOf_error {rtTable : UInt32 → List (Fin n)} {sip dip qpid : UInt32} {e : Fault}
    (h : getNicIdx hash rtTable sip dip qpid = .error e) : e = .noNic := by
  unfold getNicIdx at h
  dsimp only at h
  cases chosen : (rtTable dip)[hash sip dip qpid % (rtTable dip).length]? with
  | none =>
    rw [chosen] at h
    exact (Except.error.inj h).symm
  | some nic =>
    rw [chosen] at h
    cases h

theorem takeQueue_apply (queueSize : Fin n → Fin queueNum → ℕ) (nic nic' : Fin n)
    (q q' : Fin queueNum) :
    takeQueue queueSize nic q nic' q' = queueSize nic' q' + if nic = nic' ∧ q = q' then 1
      else 0 := by
  unfold takeQueue
  rw [update₂_apply]
  by_cases here : nic' = nic ∧ q' = q
  · obtain ⟨rfl, rfl⟩ := here
    simp
  · rw [if_neg here, if_neg fun there => here ⟨there.1.symm, there.2.symm⟩, Nat.add_zero]

theorem releaseQueue_apply {queueSize freed : Fin n → Fin queueNum → ℕ} {nic : Fin n}
    {q : Fin queueNum}
    (h : releaseQueue queueSize nic q = .ok freed) (nic' : Fin n) (q' : Fin queueNum) :
    freed nic' q' + (if nic = nic' ∧ q = q' then 1 else 0) = queueSize nic' q' := by
  unfold releaseQueue at h
  split at h
  · rename_i filled
    obtain rfl := Except.ok.inj h
    rw [update₂_apply]
    by_cases here : nic' = nic ∧ q' = q
    · obtain ⟨rfl, rfl⟩ := here
      simp only [and_self, if_true]
      omega
    · rw [if_neg here, if_neg fun there => here ⟨there.1.symm, there.2.symm⟩, Nat.add_zero]
  · cases h

/-! ### Runs that pair -/

/-- The counters are exact, and no queue pair has two messages. -/
structure Sound (hash : UInt32 → UInt32 → UInt32 → ℕ) (s : Host n) : Prop where
  balanced : s.Balanced hash .message
  single : ∀ qp ∈ s.qpMap, qp.msgs.length ≤ 1

theorem sound_addQueuePair {sip dip qpid msgSeq : UInt32} {rand : ℕ} (h : Sound hash s)
    (fresh : s.find qpid = none)
    (run : s.addQueuePair hash sip dip qpid msgSeq rand = .ok t) : Sound hash t := by
  unfold addQueuePair at run
  rw [fresh] at run
  obtain ⟨nic, there, rest⟩ := bind_ok run
  obtain rfl := Except.ok.inj rest
  generalize getQueueforFlow (s.queueSize nic) rand = queueId
  constructor
  · intro nic' q
    show takeQueue s.queueSize nic queueId nic' q =
      tally Holder.message.weight (s.assigned hash nic' q)
      (s.qpMap ++ [{ qpid, sip, dip, queueId, msgs := [msgSeq] }])
    have joins : s.assigned hash nic' q { qpid, sip, dip, queueId, msgs := [msgSeq] } =
        decide (nic = nic' ∧ queueId = q) := assigned_nic there
    rw [takeQueue_apply, tally_concat, joins, h.balanced nic' q]
    simp [Holder.weight]
  · intro qp member
    rcases List.mem_append.mp member with old | new
    · exact h.single qp old
    · rw [List.mem_singleton.mp new]
      exact le_refl _

theorem holds_queue {qp : Qp} {k : ℕ} {nic : Fin n} {msgSeq : UInt32} (h : Balanced hash .message s)
    (found : s.qpMap[k]? = some qp) (waits : msgSeq ∈ qp.msgs) (there : s.nicOf hash qp = .ok nic) :
    0 < s.queueSize nic qp.queueId := by
  have holds : s.assigned hash nic qp.queueId qp = true := by
    rw [assigned_nic there]
    exact decide_eq_true ⟨rfl, rfl⟩
  have counted := @le_tally _ Holder.message.weight _ _ _ (List.mem_of_getElem? found) holds
  rw [h nic qp.queueId]
  exact (List.length_pos_of_mem waits).trans_le counted

theorem sound_msgComplete {qpid msgSeq : UInt32} (h : Sound hash s)
    (run : s.msgComplete hash qpid msgSeq = .ok t) : Sound hash t := by
  unfold msgComplete at run
  split at run
  · obtain rfl := Except.ok.inj run
    exact h
  · rename_i qp k located
    have found := find_some located
    split at run
    · obtain rfl := Except.ok.inj run
      exact h
    · rename_i completes
      obtain ⟨waits, _⟩ := not_or.mp completes
      obtain ⟨nic, there, rest⟩ := bind_ok run
      obtain ⟨queueSize, released, rest⟩ := bind_ok rest
      obtain rfl := Except.ok.inj rest
      have member := List.mem_of_getElem? found
      have one : qp.msgs = [msgSeq] := by
        have few := h.single qp member
        obtain ⟨other, only⟩ := List.length_eq_one_iff.mp
          (Nat.le_antisymm few (List.length_pos_of_mem (not_not.mp waits)))
        rw [only] at waits ⊢
        rw [List.mem_singleton.mp (not_not.mp waits)]
      have done : qp.msgs.erase msgSeq = [] := by simp [one]
      constructor
      · intro nic' q
        show queueSize nic' q = tally Holder.message.weight (s.assigned hash nic' q) (s.qpMap.set k
          { qp with msgs := qp.msgs.erase msgSeq, finished := msgSeq :: qp.finished })
        have replaced := @tally_set _ Holder.message.weight (s.assigned hash nic' q) _ _ _
          { qp with msgs := qp.msgs.erase msgSeq, finished := msgSeq :: qp.finished } found
        have freed := releaseQueue_apply released nic' q
        have stays : s.assigned hash nic' q
          { qp with msgs := qp.msgs.erase msgSeq, finished := msgSeq :: qp.finished } =
            s.assigned hash nic' q qp := assigned_congr rfl rfl rfl rfl rfl
        have before : Holder.message.weight qp = 1 := by
          rw [Holder.weight, one]
          rfl
        have after : Holder.message.weight
            { qp with msgs := qp.msgs.erase msgSeq, finished := msgSeq :: qp.finished } = 0 := by
          rw [Holder.weight, done]
          rfl
        rw [stays, assigned_nic there, ← h.balanced nic' q, before, after, ite_self,
          Nat.add_zero] at replaced
        simp only [decide_eq_true_eq] at replaced
        omega
      · intro other later
        rcases List.mem_or_eq_of_mem_set later with old | rfl
        · exact h.single other old
        · simp [done]

theorem sound_step {ev : Event n} (h : Sound hash s) (paired : s.Paired ev)
    (run : s.step hash ev = .ok t) : Sound hash t := by
  cases ev with
  | addQueuePair sip dip qpid msgSeq rand => exact sound_addQueuePair h paired run
  | msgComplete qpid msgSeq => exact sound_msgComplete h run
  | redistributeQp rtTable turns =>
    -- there is no queue pair to visit
    have none : s.qpMap = [] := paired
    have idle : ∀ turns : List (ℕ × ℕ), turns.foldlM (reassign hash) { s with rtTable } =
        .ok { s with rtTable } := by
      intro turns
      induction turns with
      | nil => rfl
      | cons turn rest ih =>
        have skipped : reassign hash { s with rtTable } turn = .ok { s with rtTable } := by
          unfold reassign
          simp [none]
        rw [List.foldlM_cons, skipped]
        exact ih
    obtain rfl := Except.ok.inj ((idle turns).symm.trans run)
    constructor
    · intro nic q
      have counted := h.balanced nic q
      rw [none, tally_nil] at counted
      show s.queueSize nic q = tally Holder.message.weight _ s.qpMap
      rw [counted, none, tally_nil]
    · exact h.single

theorem reachable_sound (h : Reachable hash Paired s) : Sound hash s := by
  induction h with
  | initial => exact ⟨fun _ _ => rfl, fun qp member => absurd member List.not_mem_nil⟩
  | step _ paired run ih => exact sound_step ih paired run

theorem balanced_unit (h : Sound hash s) (unit : Holder) : s.Balanced hash unit := by
  cases unit with
  | message => exact h.balanced
  | queuePair =>
    intro nic q
    rw [h.balanced nic q]
    have same : ∀ qp ∈ s.qpMap, Holder.message.weight qp = Holder.queuePair.weight qp := by
      intro qp member
      have few := h.single qp member
      simp only [Holder.weight]
      split
      · rename_i none
        rw [none]
        rfl
      · rename_i some
        have filled := List.length_pos_of_ne_nil some
        omega
    apply Nat.le_antisymm
    · exact tally_le_tally fun qp member passes => ⟨passes, (same qp member).le⟩
    · exact tally_le_tally fun qp member passes => ⟨passes, (same qp member).ge⟩

theorem step_not_emptyQueue (h : Balanced hash .message s) (ev : Event n) :
    s.step hash ev ≠ .error .emptyQueue := by
  intro fails
  cases ev with
  | addQueuePair sip dip qpid msgSeq rand =>
    dsimp only [step] at fails
    unfold addQueuePair at fails
    split at fails
    · rcases bind_error fails with failed | ⟨nic, _, last⟩
      · exact absurd (nicOf_error failed) (by decide)
      · cases last
    · rcases bind_error fails with failed | ⟨nic, _, last⟩
      · exact absurd (nicOf_error failed) (by decide)
      · cases last
  | msgComplete qpid msgSeq =>
    dsimp only [step] at fails
    unfold msgComplete at fails
    split at fails
    · cases fails
    · rename_i qp k located
      split at fails
      · cases fails
      · rename_i completes
        rcases bind_error fails with failed | ⟨nic, there, last⟩
        · exact absurd (nicOf_error failed) (by decide)
        · have filled :=
            holds_queue h (find_some located) (not_not.mp (not_or.mp completes).1) there
          rw [releaseQueue, if_pos filled] at last
          cases last
  | redistributeQp rtTable turns =>
    obtain ⟨turn, _, mid, _, stops⟩ :=
      foldlM_error (I := fun _ => True) (fun _ _ _ _ _ _ => trivial) trivial fails
    unfold reassign at stops
    split at stops
    · cases stops
    · rcases bind_error stops with failed | ⟨nic, _, last⟩
      · exact absurd (nicOf_error failed) (by decide)
      · cases last

/-- While every message has a queue pair of its own and links change only before the first one, the
counters are the holders of the queues, none is taken below zero, and all are zero once every
message is complete. -/
theorem queues_balanced (h : Reachable hash Paired s) (unit : Holder) :
    s.Balanced hash unit ∧ (∀ ev, s.step hash ev ≠ .error .emptyQueue) ∧
      ((∀ qp ∈ s.qpMap, qp.msgs = []) → ∀ nic q, s.queueSize nic q = 0) := by
  have sound := reachable_sound h
  refine ⟨balanced_unit sound unit, step_not_emptyQueue sound.balanced, fun complete nic q => ?_⟩
  rw [sound.balanced nic q]
  refine Nat.le_zero.mp ((tally_le_tally fun qp member passes => ⟨passes, ?_⟩).trans_eq
    (show tally (fun _ => 0) (s.assigned hash nic q) s.qpMap = 0 by simp [tally]))
  rw [Holder.weight, complete qp member]
  rfl

/-- One NIC, which every address is behind. -/
def oneNic : Host 1 where
  rtTable _ := [0]

def sameHash (_ _ _ : UInt32) : ℕ := 0

def oneMessage : Event 1 := .addQueuePair 1 2 7 0 0

/-- Two NICs, and the queue pairs go to them in turn. -/
def twoNics : Host 2 where
  rtTable _ := [0, 1]

def qpidHash (_ _ qpid : UInt32) : ℕ := qpid.toNat

instance (s : Host n) (ev : Event n) : Decidable (s.Paired ev) :=
  match ev with
  | .addQueuePair _ _ qpid _ _ => inferInstanceAs (Decidable (s.find qpid = none))
  | .msgComplete _ _ => .isTrue trivial
  | .redistributeQp _ _ => inferInstanceAs (Decidable (s.qpMap = []))

/-- The run of a list of events, as long as they are `Paired`. -/
def pairedRun (hash : UInt32 → UInt32 → UInt32 → ℕ) (s : Host n) (evs : List (Event n)) :
    Option (Host n) :=
  evs.foldlM (fun s ev => if s.Paired ev then (s.step hash ev).toOption else none) s

theorem reachable_pairedRun {evs : List (Event n)} (start : Reachable hash Paired s)
    (ends : s.pairedRun hash evs = some t) : Reachable hash Paired t := by
  induction evs generalizing s with
  | nil =>
    cases ends
    exact start
  | cons ev rest ih =>
    obtain ⟨mid, first, ends⟩ := Option.bind_eq_some_iff.mp ((List.foldlM_cons ..).symm.trans ends)
    split at first
    · rename_i paired
      exact ih (.step start paired (toOption_eq_some.mp first)) ends
    · cases first

/-- Three messages with a queue pair each, the first of them complete. -/
theorem queues_balanced_twoNics : ∃ s : Host 2, Reachable qpidHash Paired s ∧
    s.qpMap.map Qp.msgs = [[], [1], [2]] ∧
    (List.finRange queueNum).map (s.queueSize 0) = [0, 1, 0, 0, 0, 0, 0, 0] ∧
    (List.finRange queueNum).map (s.queueSize 1) = [0, 0, 1, 0, 0, 0, 0, 0] ∧
    s.Balanced qpidHash .message ∧ (∀ ev, s.step qpidHash ev ≠ .error .emptyQueue) ∧
        ((∀ qp ∈ s.qpMap, qp.msgs = []) → ∀ nic q, s.queueSize nic q = 0) := by
  have ends : ((twoNics.pairedRun qpidHash [.addQueuePair 1 2 7 0 0, .addQueuePair 1 2 8 1 0,
    .addQueuePair 1 2 9 2 0,
      .msgComplete 7 0]).any fun s => decide (s.qpMap.map Qp.msgs = [[], [1], [2]] ∧
        (List.finRange queueNum).map (s.queueSize 0) = [0, 1, 0, 0, 0, 0, 0, 0] ∧
        (List.finRange queueNum).map (s.queueSize 1) = [0, 0, 1, 0, 0, 0, 0, 0])) = true := by
          decide +kernel
  obtain ⟨s, run, facts⟩ := (Option.any_eq_true ..).mp ends
  obtain ⟨msgs, first, second⟩ := of_decide_eq_true facts
  have reached := reachable_pairedRun (.initial twoNics.rtTable) run
  exact ⟨s, reached, msgs, first, second, queues_balanced reached .message⟩

/-- Two messages of one queue pair take one place and give back two. -/
theorem second_complete_asserts :
    [oneMessage, .addQueuePair 1 2 7 1 0, .msgComplete 7 0, .msgComplete 7 1].foldlM
    (step sameHash) oneNic = .error .emptyQueue := rfl

end Host

end HostQueues

end Pyrrha

import Pyrrha.Lib.RoundRobin
import Pyrrha.Rdma.Lists
import Pyrrha.Rdma.Session

/-!
How often the messages of a queue pair send with `MSG_RR`. `PeekRRMsg` begins at the position that
`SetRRLast` has remembered, which is the one of the last sender itself as long as that is in its
place.
-/

namespace Pyrrha
open Lib

namespace Rdma

/-- `GetNxtPacket`; or anything else that happens to a queue pair: messages arrive, are complete,
wait and come back. Only `SetRRLast` writes `m_rrlastMsg`. -/
inductive SndCall where
  | getNxtPacket
  | other (s : SndQueuePair)

/-- A packet: the queue pair before it, and the message it is taken from. -/
structure PacketTaken where
  before : SndQueuePair
  msgSeq : ℕ

def packets (q : SndConfig) : SndQueuePair → List SndCall → Except Halt (List PacketTaken)
  | _, [] => .ok []
  | s, .other next :: rest => packets q { next with rrlastMsg := s.rrlastMsg } rest
  | s, .getNxtPacket :: rest => do
    let (next, m, _) ← s.getNxtPacket q
    let later ← packets q next rest
    .ok (⟨s, m.msgSeq⟩ :: later)

/-- The messages of `rdma_msgs_sending`. -/
def SndQueuePair.sending (s : SndQueuePair) : List ℕ := s.rdmaMsgsSending.map SndMsg.msgSeq

/-- The messages in the order in which `PeekRRMsg` looks at them, from `m_rrlastMsg` on. -/
def SndQueuePair.scan (s : SndQueuePair) : List ℕ := s.sending.rotate s.rrlastMsg

/-- The messages with packets to send, in the order of the scan of `PeekRRMsg`. -/
def SndQueuePair.ready (q : QpConfig) (s : SndQueuePair) : List ℕ :=
  ((s.rdmaMsgsSending.rotate s.rrlastMsg).filter (SndMsg.sendable q)).map SndMsg.msgSeq

def PacketTaken.turn (q : SndConfig) (p : PacketTaken) : RingTurn ℕ :=
  ⟨p.before.ready q.toQpConfig, p.msgSeq⟩

/-- A change of `rdma_msgs_sending` between two packets: no message that has waited comes behind the
one it has waited for. -/
def KeepsOrder (past : List (RingTurn ℕ)) (s next : SndQueuePair) : Prop :=
  next.sending = s.sending ∨ Queued past (behindLast past next.scan)

/-- What is asked of a run: at every packet the messages have different numbers and `m_rrlastMsg` is
not at the last sender, or nobody else has been ready since; and other changes of the vector keep
its order. -/
def Steady (q : SndConfig) : List (RingTurn ℕ) → SndQueuePair → List SndCall → Prop
  | _, _, [] => True
  | past, s, .other next :: rest =>
    let next := { next with rrlastMsg := s.rrlastMsg }
    KeepsOrder past s next ∧ Steady q past next rest
  | past, s, .getNxtPacket :: rest =>
    s.sending.Nodup ∧ MovedOn past s.scan (s.ready q.toQpConfig) ∧
      match s.getNxtPacket q with
      | .ok (t, m, _) => Steady q (⟨s.ready q.toQpConfig, m.msgSeq⟩ :: past) t rest
      | .error _ => True

variable {q : SndConfig} {s t : SndQueuePair} {m : SndMsg} {pkt : DataPacket} {k : ℕ}

theorem peekRRMsg_ready : (s.ready q.toQpConfig).head? =
    (s.peekRRMsg q.toQpConfig).map SndMsg.msgSeq := by
  unfold SndQueuePair.ready SndQueuePair.peekRRMsg
  rw [List.head?_map, List.head?_filter]

theorem getNxtPacket_first (rr : q.msgScheduler = .rr) (h : s.getNxtPacket q = .ok (t, m, pkt)) :
    (s.ready q.toQpConfig).head? = some m.msgSeq := by
  unfold SndQueuePair.getNxtPacket at h
  obtain ⟨m₀, peeked, h⟩ := bind_ok h
  obtain ⟨⟨seq, payload, op⟩, -, h⟩ := bind_ok h
  obtain ⟨s₁, -, h⟩ := bind_ok h
  obtain ⟨s₂, -, h⟩ := bind_ok h
  cases h
  have found := orHalt_some peeked
  rw [SndQueuePair.peek, rr] at found
  rw [peekRRMsg_ready, show s.peekRRMsg q.toQpConfig = some m₀ from found]
  rfl

theorem ready_sublist : (s.ready q.toQpConfig).Sublist s.scan := by
  unfold SndQueuePair.ready SndQueuePair.scan SndQueuePair.sending
  rw [← List.map_rotate]
  exact List.filter_sublist.map SndMsg.msgSeq

/-! ### What a packet does to the vector -/

theorem update_order (same : m.msgSeq = k) : (s.update k m).sending = s.sending := by
  unfold SndQueuePair.sending SndQueuePair.update
  rw [List.map_map]
  apply List.map_congr_left
  intro old _
  dsimp only [Function.comp]
  split
  · rename_i here
    rw [same, here]
  · rfl

theorem setRRLast_at (member : k ∈ s.sending) : (s.setRRLast k).rrlastMsg = s.sending.idxOf k := by
  obtain ⟨m, inside, number⟩ := List.mem_map.mp member
  have found : s.rdmaMsgsSending.findIdx? (fun m => decide (m.msgSeq = k)) =
      some (s.rdmaMsgsSending.findIdx fun m => decide (m.msgSeq = k)) :=
    List.findIdx?_eq_some_of_exists ⟨m, inside, decide_eq_true number⟩
  unfold SndQueuePair.setRRLast SndQueuePair.sending
  rw [found, List.idxOf, List.findIdx_map]
  rfl

theorem moveToWaiting_sending (h : s.moveRdmaOperationToWaiting k = .ok t) :
    t.sending = s.sending.erase k ∧ t.rrlastMsg = s.rrlastMsg := by
  unfold SndQueuePair.moveRdmaOperationToWaiting at h
  split at h
  · cases h
    unfold SndQueuePair.sending
    rw [List.erase_eq_eraseP', List.eraseP_map]
    exact ⟨rfl, rfl⟩
  · cases h

theorem resetMSGRTOTime_sending {q : QpConfig} (h : s.resetMSGRTOTime q = .ok t) :
    t.sending = s.sending ∧ t.rrlastMsg = s.rrlastMsg := by
  obtain ⟨msgs, -, h⟩ := bind_ok h
  split at h
  all_goals
    cases h
    exact ⟨rfl, rfl⟩

theorem resetLastActionTime_sending {q : QpConfig} (h : s.resetLastActionTime q k = .ok t) :
    t.sending = s.sending ∧ t.rrlastMsg = s.rrlastMsg := by
  unfold SndQueuePair.resetLastActionTime at h
  split at h
  · cases h
    exact ⟨rfl, rfl⟩
  · split at h
    · rename_i m found
      have number : m.msgSeq = k := by simpa using List.find?_some found
      obtain ⟨same, cursor⟩ := resetMSGRTOTime_sending h
      have kept : (s.update k { m with lastActionTime := s.now }).sending = s.sending :=
        update_order number
      exact ⟨same.trans kept, cursor⟩
    · cases h

/-- `SetRRLast` leaves the scan at the message a packet is taken from, or behind it once it is put
aside. -/
theorem getNxtPacket_scan (rr : q.msgScheduler = .rr) (distinct : s.sending.Nodup)
    (h : s.getNxtPacket q = .ok (t, m, pkt)) : ∃ front rear, s.scan = front ++ m.msgSeq :: rear ∧
    (t.scan = m.msgSeq :: rear ++ front ∨ t.scan = rear ++ front) := by
  have at_scan : m.msgSeq ∈ s.scan :=
    ready_sublist.subset (List.mem_of_head? (getNxtPacket_first rr h))
  have member : m.msgSeq ∈ s.sending := List.mem_rotate.mp at_scan
  obtain ⟨front, rear, scan⟩ := List.append_of_mem at_scan
  obtain ⟨stays, leaves⟩ := rotate_to distinct scan
  refine ⟨front, rear, scan, ?_⟩
  unfold SndQueuePair.getNxtPacket at h
  obtain ⟨m₀, -, h⟩ := bind_ok h
  obtain ⟨⟨seq, payload, op⟩, -, h⟩ := bind_ok h
  obtain ⟨s₁, reset, h⟩ := bind_ok h
  obtain ⟨s₂, aside, h⟩ := bind_ok h
  cases h
  obtain ⟨same, cursor⟩ := resetLastActionTime_sending reset
  have kept := update_order (s := s) (m := m₀.sent q.toQpConfig seq payload op) rfl
  have sending : s₁.sending = s.sending := same.trans kept
  rw [setRRLast_at (by rw [kept]; exact member), kept] at cursor
  unfold SndQueuePair.putAside at aside
  unfold SndQueuePair.scan
  split at aside
  · right
    obtain ⟨less, last⟩ := moveToWaiting_sending aside
    rw [less, last, cursor, sending]
    exact leaves
  · left
    cases aside
    rw [sending, cursor]
    exact stays

theorem steady_orderly {calls : List SndCall} {past : List (RingTurn ℕ)} {ps : List PacketTaken}
    (rr : q.msgScheduler = .rr) (steady : Steady q past s calls)
    (queued : Queued past (behindLast past s.scan))
    (h : packets q s calls = .ok ps) : Orderly past (ps.map (PacketTaken.turn q)) := by
  induction calls generalizing past s ps with
  | nil =>
    cases h
    trivial
  | cons call rest ih =>
    cases call with
    | other next =>
      obtain ⟨kept, steady⟩ := steady
      refine ih steady ?_ h
      rcases kept with same | ordered
      · have scan : { next with rrlastMsg := s.rrlastMsg }.scan = s.scan :=
          congrArg (List.rotate · s.rrlastMsg) same
        rw [scan]
        exact queued
      · exact ordered
    | getNxtPacket =>
      obtain ⟨⟨next, m, pkt⟩, taken, h⟩ := bind_ok h
      obtain ⟨later, run, h⟩ := bind_ok h
      cases h
      obtain ⟨distinct, moved, steady⟩ := steady
      rw [taken] at steady
      obtain ⟨front, rear, scan, goes⟩ := getNxtPacket_scan rr distinct taken
      have head := getNxtPacket_first rr taken
      have looked := ready_sublist (q := q) (s := s)
      have nodup : s.scan.Nodup := List.nodup_rotate.mpr distinct
      rw [scan] at looked nodup queued moved
      let turn : RingTurn ℕ := ⟨s.ready q.toQpConfig, m.msgSeq⟩
      refine ⟨fun b ready => queued_served (t := turn) nodup looked head queued moved ready, ?_⟩
      exact ih steady (queued_next (t := turn) nodup looked head queued goes) run

/-- The messages of a queue pair share its packets fairly as long as `m_rrlastMsg` moves on and
keeps its place. -/
theorem getNxtPacket_fair {calls : List SndCall} {ps : List PacketTaken} (rr : q.msgScheduler = .rr)
    (h : packets q s calls = .ok ps) (steady : Steady q [] s calls) :
    FairTurns (ps.map (PacketTaken.turn q)) := by
  have nobody : Queued [] (behindLast [] s.scan) := fun _ _ _ _ waits => waits.elim
  exact orderly_fair (steady_orderly rr steady nobody h)

/-! ### Two messages -/

def rrSnd : SndConfig := ⟨⟨Session.smallConfig .goBackN 0, 1, true⟩, .rr⟩

theorem twoMsgs_lt (size : Fin 100) : (size : ℕ) < 2 ^ 32 := by omega

def twoMsgs (size size' : Fin 100) : SndQueuePair :=
  (SndQueuePair.addRdmaOperation {} ⟨1, size, twoMsgs_lt size, {}, [], 0⟩).addRdmaOperation
    ⟨2, size', twoMsgs_lt size', {}, [], 0⟩

theorem packets_turns (size size' : Fin 100) (calls : List SndCall) (turns : List (RingTurn ℕ))
    (ends : (packets rrSnd (twoMsgs size size') calls).toOption.any (fun ps =>
      decide (ps.map (PacketTaken.turn rrSnd) = turns)) = true) :
    ∃ ps, packets rrSnd (twoMsgs size size') calls = .ok ps ∧
    ps.map (PacketTaken.turn rrSnd) = turns := by
  obtain ⟨ps, run, shape⟩ := (Option.any_eq_true ..).mp ends
  exact ⟨ps, toOption_eq_some.mp run, of_decide_eq_true shape⟩

/-- Two messages of two packets each: the first one sends twice, and the other one waits. -/
theorem twoMsgs_unfair : ∃ ps, packets rrSnd (twoMsgs 20 20)
    [.getNxtPacket, .getNxtPacket] = .ok ps ∧
    ¬FairTurns (ps.map (PacketTaken.turn rrSnd)) := by
  obtain ⟨ps, run, turns⟩ := packets_turns 20 20 [.getNxtPacket, .getNxtPacket]
    [⟨[1, 2], 1⟩, ⟨[1, 2], 1⟩] (by decide +kernel)
  refine ⟨ps, run, fun fair => ?_⟩
  rw [turns] at fair
  obtain ⟨t, none, -⟩ :=
    fair [] ⟨[1, 2], 1⟩ [] ⟨[1, 2], 1⟩ [] rfl rfl nofun 2 (by decide) (by decide) nofun (by decide)
  cases none

/-! ### Three messages -/

instance decidableWaits : (past : List (RingTurn ℕ)) → (b a : ℕ) → Decidable (Waits past b a)
  | [], _, _ => isFalse id
  | t :: past, b, a =>
    have := decidableWaits past b a
    inferInstanceAs (Decidable (b ∈ t.ready ∧ b ≠ t.taken ∧ (t.taken = a ∨ Waits past b a)))

instance decidableQueued (past : List (RingTurn ℕ)) (ring : List ℕ) :
    Decidable (Queued past ring) :=
  inferInstanceAs (Decidable (∀ b ∈ ring, ∀ a ∈ ring, Waits past b a → [b, a].Sublist ring))

instance decidableMovedOn (past : List (RingTurn ℕ)) (scan ready : List ℕ) :
    Decidable (MovedOn past scan ready) :=
  inferInstanceAs (Decidable (∀ t ∈ past.head?, _ → _ → ∀ b ∈ ready, b ∈ t.ready → b = t.taken))

instance decidableSteady : (past : List (RingTurn ℕ)) → (s : SndQueuePair) →
    (calls : List SndCall) →
    Decidable (Steady q past s calls)
  | _, _, [] => isTrue trivial
  | past, s, .other next :: rest =>
    have := decidableSteady past { next with rrlastMsg := s.rrlastMsg } rest
    inferInstanceAs (Decidable ((_ = _ ∨ Queued _ _) ∧ _))
  | past, s, .getNxtPacket :: rest =>
    have : Decidable (match s.getNxtPacket q with
        | .ok (t, m, _) => Steady q (⟨s.ready q.toQpConfig, m.msgSeq⟩ :: past) t rest
        | .error _ => True) :=
      match s.getNxtPacket q with
      | .ok (t, m, _) => decidableSteady (⟨s.ready q.toQpConfig, m.msgSeq⟩ :: past) t rest
      | .error _ => isTrue trivial
    inferInstanceAs (Decidable (_ ∧ _ ∧ _))

theorem onePacket_lt : 10 < 2 ^ 32 := by decide

def onePacket (k : ℕ) : SndMsg := ⟨k, 10, onePacket_lt, {}, [], 0⟩

/-- Three messages of one packet each. -/
def threeMsgs (i j k : ℕ) : SndQueuePair :=
  { rdmaMsgsSending := [onePacket i, onePacket j, onePacket k] }

/-- Every message comes back as soon as its packet is sent. -/
def comingBack : List SndCall :=
  [.getNxtPacket, .other (threeMsgs 2 3 1), .getNxtPacket, .other (threeMsgs 3 1 2), .getNxtPacket,
    .other (threeMsgs 1 2 3), .getNxtPacket]

theorem getNxtPacket_fair_back : ∃ ps, packets rrSnd (threeMsgs 1 2 3) comingBack = .ok ps ∧
    ps.map PacketTaken.msgSeq = [1, 2, 3, 1] ∧ FairTurns (ps.map (PacketTaken.turn rrSnd)) := by
  have runs : (packets rrSnd (threeMsgs 1 2 3) comingBack).toOption.any (fun ps =>
      decide (ps.map PacketTaken.msgSeq = [1, 2, 3, 1])) = true := by decide +kernel
  obtain ⟨ps, run, taken⟩ := (Option.any_eq_true ..).mp runs
  have ends := toOption_eq_some.mp run
  exact ⟨ps, ends, of_decide_eq_true taken, getNxtPacket_fair rfl ends (by decide +kernel)⟩

end Rdma

end Pyrrha

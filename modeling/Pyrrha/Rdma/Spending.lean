import Mathlib.Algebra.BigOperators.Group.List.Basic
import Pyrrha.Rdma.TokenSender

/-!
What a packet costs. The check before it looks at the next payload and at one or two credits; the
packet is paid for when it has been built. Only the first credit is ever partly used, so two credits
are always worth more than a packet.
-/

namespace Pyrrha
open Lib

namespace Rdma

variable {c : TokenConfig} {q : QpConfig} {s t : TokenSender} {qp qp' : SndQueuePair} {m : SndMsg}
    {l l' : List Credit} {p payload : ℕ}

/-! ### Credits -/

def worth (l : List Credit) : ℕ := (l.map Credit.remain).sum

@[simp] theorem worth_nil : worth [] = 0 := rfl

@[simp] theorem worth_cons (credit : Credit) (l : List Credit) :
    worth (credit :: l) = credit.remain + worth l := rfl

/-- Every credit has something left, at most a payload `p`, and all but the first are unused. -/
structure Stored (p : ℕ) (l : List Credit) : Prop where
  remain : ∀ credit ∈ l, 0 < credit.remain ∧ credit.remain ≤ p
  full : ∀ credit ∈ l.tail, credit.remain = p

theorem stored_nil (p : ℕ) : Stored p [] where
  remain _ member := by cases member
  full _ member := by cases member

theorem stored_tail {credit : Credit} (S : Stored p (credit :: l)) : Stored p l where
  remain x member := S.remain x (List.mem_cons_of_mem _ member)
  full x member := S.full x (List.mem_of_mem_tail member)

theorem stored_suffix (S : Stored p l) (suffix : l' <:+ l) : Stored p l' := by
  induction l with
  | nil =>
    rw [List.suffix_nil.mp suffix]
    exact S
  | cons credit rest ih =>
    rcases List.suffix_cons_iff.mp suffix with rfl | later
    · exact S
    · exact ih (stored_tail S) later

theorem stored_concat (S : Stored p l) (pos : 0 < p) {credit : Credit}
    (unused : credit.remain = p) : Stored p (l ++ [credit]) := by
  refine ⟨fun x member => ?_, fun x member => ?_⟩
  · rcases List.mem_append.mp member with old | new
    · exact S.remain x old
    · rw [List.mem_singleton.mp new, unused]
      exact ⟨pos, le_refl p⟩
  · cases l with
    | nil => cases member
    | cons front rest =>
      rcases List.mem_append.mp member with old | new
      · exact S.full x old
      · rw [List.mem_singleton.mp new]
        exact unused

/-- Credits that are worth a payload pay for it, and nothing else is spent. -/
theorem spendCredits_exact (S : Stored p l) (enough : payload ≤ worth l) (tag : ℕ) (ecn : Bool) :
    ∃ l' psn ecn', spendCredits l payload tag ecn = .ok (l', psn, ecn') ∧
    worth l' + payload = worth l ∧ Stored p l' := by
  induction l generalizing payload tag ecn with
  | nil =>
    have zero : payload = 0 := Nat.le_zero.mp enough
    exact ⟨[], tag, ecn, by rw [spendCredits, if_pos zero], by rw [zero]; rfl, S⟩
  | cons credit rest ih =>
    unfold spendCredits
    by_cases zero : payload = 0
    · exact ⟨credit :: rest, tag, ecn, if_pos zero, by rw [zero, Nat.add_zero], S⟩
    rw [if_neg zero]
    rw [worth_cons] at enough
    by_cases whole : credit.remain ≤ payload
    · obtain ⟨l', psn, ecn', spent, exact_worth, S'⟩ :=
        ih (stored_tail S) (show payload - credit.remain ≤ worth rest by omega) credit.getPSN
          (ecn || credit.ecn)
      rw [if_pos whole]
      refine ⟨l', psn, ecn', spent, ?_, S'⟩
      rw [worth_cons]
      omega
    · rw [if_neg whole]
      refine ⟨_, tag, ecn, rfl, ?_, fun x member => ?_, S.full⟩
      · simp only [worth_cons]
        omega
      · rcases List.mem_cons.mp member with rfl | old
        · have most := (S.remain credit List.mem_cons_self).2
          dsimp only
          omega
        · exact S.remain x (List.mem_cons_of_mem _ old)

theorem affords_worth (S : Stored p l) (affords : TokenSender.affords l payload = true)
    (most : payload ≤ p) : payload ≤ worth l := by
  cases l with
  | nil => cases affords
  | cons front rest =>
    rw [TokenSender.affords, Bool.or_eq_true, decide_eq_true_eq] at affords
    rw [worth_cons]
    rcases affords with first | more
    · omega
    · cases rest with
      | nil => cases more
      | cons second rest =>
        have unused := S.full second List.mem_cons_self
        rw [worth_cons]
        omega

theorem sendingData_exact (S : Stored p l) (enough : payload ≤ worth l) (pos : 0 < payload) :
    ∃ l' psn ecn, sendingData l payload = .ok (l', psn, ecn) ∧ worth l' + payload = worth l ∧
    Stored p l' := by
  cases l with
  | nil =>
    rw [worth_nil] at enough
    omega
  | cons front rest =>
    unfold sendingData
    dsimp only
    rw [if_neg (by omega)]
    exact spendCredits_exact S enough front.getPSN front.ecn

/-! ### Payloads -/

/-- What has been sent and what has timed out starts within the message. -/
structure Within (m : SndMsg) : Prop where
  sent : ∀ x ∈ m.op.sentPsn, x < m.size
  timeout : ∀ x ∈ m.op.timeoutPsn, x < m.size

/-- The sequence number `GetNxtPayload` picks for a packet that is not sent. -/
def SndOperation.checkSeq (cfg : Config) (m : SndOperation) : ℕ :=
  let nxt := m.sndNxt % 2 ^ 32
  if cfg.mode = .disOrder ∧ cfg.size ≤ nxt ∧ m.timeouted = true then
    m.timeoutPsn.elems.head?.getD nxt
  else nxt

theorem checkPayload_eq (cfg : Config) (m : SndOperation) : m.checkPayload cfg =
    if cfg.size ≤ add32 (m.checkSeq cfg) cfg.mtu then sub32 cfg.size (m.checkSeq cfg)
      else cfg.mtu := rfl

theorem nextPsn_checked (W : Within m) (mode : q.cfg.mode ≠ .irn) (left : 0 < m.bytesLeft q) :
    ∃ op, m.op.nextPsn (m.cfg q) = some (m.op.checkSeq (m.cfg q), op) ∧
    m.op.checkSeq (m.cfg q) < m.size ∧
      (∀ x ∈ op.sentPsn, x < m.size) ∧ ∀ x ∈ op.timeoutPsn, x < m.size := by
  have size_lt := m.size_lt
  have below (calm : ¬ ((m.cfg q).mode = .disOrder ∧ m.op.timeouted = true ∧
    m.op.timeoutPsn.elems ≠ [])) : m.op.sndNxt % 2 ^ 32 < m.size := by
    have some_left : m.op.sndNxt < m.size := by
      by_contra none_left
      have zero : m.bytesLeft q = 0 :=
        bytesLeft_zero.mpr ⟨⟨not_lt.mp none_left, calm⟩, fun irn => absurd irn mode⟩
      omega
    rwa [Nat.mod_eq_of_lt (by omega)]
  unfold SndOperation.nextPsn SndOperation.checkSeq
  dsimp only
  by_cases order : (m.cfg q).mode = .disOrder
  · rw [if_neg (not_not.mpr order)]
    have new (small : m.op.sndNxt % 2 ^ 32 < m.size) :
        ∀ x ∈ m.op.sentPsn.insert (m.op.sndNxt % 2 ^ 32), x < m.size := by
      intro x member
      rcases OrderedSet.mem_insert.mp member with rfl | old
      · exact small
      · exact W.sent x old
    by_cases late : m.op.timeouted = true ∧ (m.cfg q).size ≤ m.op.sndNxt % 2 ^ 32
    · cases elems : m.op.timeoutPsn.elems with
      | nil =>
        have small := below fun again => again.2.2 elems
        exact absurd small (not_lt.mpr late.2)
      | cons first rest =>
        have member : first ∈ m.op.timeoutPsn := by
          rw [OrderedSet.mem_def, elems]
          exact List.mem_cons_self
        have inside := W.timeout first member
        have short : ¬ (m.cfg q).size ≤ first := not_le.mpr inside
        simp only [late, decide_true, Bool.and_self, order, and_self, if_true, if_neg short,
          List.head?_cons, Option.getD_some]
        exact ⟨_, rfl, inside, W.sent, fun x left => W.timeout x (OrderedSet.mem_of_erase left)⟩
    · have calm : (m.op.timeouted && decide ((m.cfg q).size ≤ m.op.sndNxt % 2 ^ 32)) = false := by
        rw [Bool.and_eq_false_iff]
        by_cases flag : m.op.timeouted = true
        · exact .inr (decide_eq_false fun large => late ⟨flag, large⟩)
        · exact .inl (Bool.eq_false_of_not_eq_true flag)
      have small : m.op.sndNxt % 2 ^ 32 < m.size := by
        by_contra large
        refine large (below fun again => late ⟨again.2.1, not_lt.mp large⟩)
      rw [if_neg fun again => late ⟨again.2.2, again.2.1⟩, calm]
      exact ⟨_, rfl, small, new small, W.timeout⟩
  · rw [if_pos order, if_neg fun again => order again.1]
    exact ⟨m.op, rfl, below fun again => order again.1, W.sent, W.timeout⟩

theorem Within.congr {m' : SndMsg} (W : Within m) (size : m'.size = m.size)
    (sent : m'.op.sentPsn = m.op.sentPsn)
    (timeout : m'.op.timeoutPsn = m.op.timeoutPsn) : Within m' := by
  refine ⟨?_, ?_⟩
  · rw [size, sent]
    exact W.sent
  · rw [size, timeout]
    exact W.timeout

theorem nextPacket_checked (W : Within m) (mode : q.cfg.mode ≠ .irn) (left : 0 < m.bytesLeft q) :
    ∃ seq payload op, Sender.nextPacket (m.cfg q) m.op = some (seq, payload, op) ∧
      payload = m.op.checkPayload (m.cfg q) ∧ 0 < payload ∧ payload ≤ q.cfg.mtu ∧
      Within (m.sent q seq payload op) := by
  obtain ⟨op, picked, inside, sent, timeout⟩ := nextPsn_checked W mode left
  have size_lt := m.size_lt
  have pos := q.cfg.mtu_pos
  have mtu_lt := q.cfg.mtu_lt
  refine ⟨m.op.checkSeq (m.cfg q), m.op.checkPayload (m.cfg q), op, ?_, rfl, ?_⟩
  · have other : ¬ (m.cfg q).mode = .irn := mode
    unfold Sender.nextPacket SndOperation.getNxtPayload
    rw [if_neg other, picked, checkPayload_eq]
    rfl
  · have bounds : 0 < m.op.checkPayload (m.cfg q) ∧ m.op.checkPayload (m.cfg q) ≤ q.cfg.mtu := by
      rw [checkPayload_eq]
      generalize m.op.checkSeq (m.cfg q) = seq at inside
      show 0 < (if m.size ≤ add32 seq q.cfg.mtu then sub32 m.size seq else q.cfg.mtu) ∧
        (if m.size ≤ add32 seq q.cfg.mtu then sub32 m.size seq else q.cfg.mtu) ≤ q.cfg.mtu
      have most : add32 seq q.cfg.mtu ≤ seq + q.cfg.mtu := Nat.mod_le _ _
      split
      · rw [sub32_exact size_lt inside.le]
        omega
      · exact ⟨pos, le_refl _⟩
    exact ⟨bounds.1, bounds.2, sent, timeout⟩

/-! ### Messages -/

namespace Within

theorem recover (W : Within m) : Within (m.recover q) := ⟨W.sent, W.sent⟩

theorem lastActionTime (W : Within m) (now : ℕ) : Within { m with lastActionTime := now } :=
  ⟨W.sent, W.timeout⟩

theorem takeAck (W : Within m) (mode : q.cfg.mode ≠ .irn) (ack : AckPacket) :
    Within (m.takeAck q ack).1 := by
  rcases takeAck_cases q m ack with same | ⟨irn, -⟩ | ⟨-, seq, -, acked⟩
  · rw [same]
    exact W
  · exact absurd irn mode
  · rw [acked]
    unfold SndOperation.acknowledge
    split
    · dsimp only
      split
      · exact ⟨fun x left => W.sent x (OrderedSet.mem_of_erase left),
          fun x left => W.timeout x (OrderedSet.mem_of_erase left)⟩
      · exact ⟨W.sent, W.timeout⟩
    · split <;> exact ⟨W.sent, W.timeout⟩

end Within

/-- Every message of the queue pair is sound. -/
def AllWithin (qp : SndQueuePair) : Prop := ∀ m ∈ qp.msgs, Within m

theorem allWithin_subset (A : AllWithin qp) (sub : qp'.msgs ⊆ qp.msgs) : AllWithin qp' :=
  fun m member => A m (sub member)

theorem allWithin_update (A : AllWithin qp) (W : Within m) (k : ℕ) : AllWithin (qp.update k m) := by
  intro x member
  rw [update_msgs] at member
  rcases mem_update member with ⟨old, -⟩ | ⟨rfl, -⟩
  · exact A x old
  · exact W

theorem msgs_mem {x : SndMsg} :
    x ∈ qp.msgs ↔ x ∈ qp.rdmaMsgsSending ∨ x ∈ qp.rdmaMsgsWaiting ∨ x ∈ qp.finishedMsgs := by
  simp only [SndQueuePair.msgs, List.mem_append, or_assoc]

theorem moveToWaiting_subset {k : ℕ} (call : qp.moveRdmaOperationToWaiting k = .ok qp') :
    qp'.msgs ⊆ qp.msgs := by
  unfold SndQueuePair.moveRdmaOperationToWaiting at call
  split at call
  · rename_i curr found
    cases call
    intro x member
    rcases msgs_mem.mp member with sending | waiting | finished
    · exact msgs_mem.mpr (.inl (List.mem_of_mem_eraseP sending))
    · rcases List.mem_append.mp waiting with old | new
      · exact msgs_mem.mpr (.inr (.inl old))
      · rw [List.mem_singleton.mp new]
        exact msgs_mem.mpr (.inl (List.mem_of_find?_eq_some found))
    · exact msgs_mem.mpr (.inr (.inr finished))
  · cases call

theorem moveToSending_subset {k : ℕ} (call : qp.moveRdmaOperationToSending k = .ok qp') :
    qp'.msgs ⊆ qp.msgs := by
  unfold SndQueuePair.moveRdmaOperationToSending at call
  split at call
  · rename_i target found
    cases call
    intro x member
    rcases msgs_mem.mp member with sending | waiting | finished
    · rcases List.mem_append.mp sending with old | new
      · exact msgs_mem.mpr (.inl old)
      · rw [List.mem_singleton.mp new]
        exact msgs_mem.mpr (.inr (.inl (List.mem_of_find?_eq_some found)))
    · exact msgs_mem.mpr (.inr (.inl (List.mem_of_mem_eraseP waiting)))
    · exact msgs_mem.mpr (.inr (.inr finished))
  · cases call

theorem removeRdmaOperation_subset (qp : SndQueuePair) (k : ℕ) : (qp.removeRdmaOperation k).msgs ⊆
    qp.msgs := by
  intro x member
  unfold SndQueuePair.removeRdmaOperation at member
  dsimp only at member
  split at member
  · rcases msgs_mem.mp member with sending | waiting | finished
    · exact msgs_mem.mpr (.inl sending)
    · exact msgs_mem.mpr (.inr (.inl (List.mem_of_mem_eraseP waiting)))
    · exact msgs_mem.mpr (.inr (.inr finished))
  · rcases msgs_mem.mp member with sending | waiting | finished
    · exact msgs_mem.mpr (.inl (List.mem_of_mem_eraseP sending))
    · exact msgs_mem.mpr (.inr (.inl waiting))
    · exact msgs_mem.mpr (.inr (.inr finished))

theorem msgComplete_within (A : AllWithin qp) (W : Within m) : AllWithin (qp.msgComplete m) := by
  unfold SndQueuePair.msgComplete
  split
  · exact A
  · intro x member
    have removed := removeRdmaOperation_subset
      { qp with msgCompleteCallback := qp.msgCompleteCallback ++ [m.msgSeq] } m.msgSeq
    rcases msgs_mem.mp member with sending | waiting | finished
    · exact A x (removed (msgs_mem.mpr (.inl sending)))
    · exact A x (removed (msgs_mem.mpr (.inr (.inl waiting))))
    · rcases List.mem_append.mp finished with old | new
      · exact A x (removed (msgs_mem.mpr (.inr (.inr old))))
      · rw [List.mem_singleton.mp new]
        exact W

theorem resetMSGRTOTime_msgs (call : qp.resetMSGRTOTime q = .ok qp') : qp'.msgs = qp.msgs := by
  unfold SndQueuePair.resetMSGRTOTime at call
  obtain ⟨msgs, -, call⟩ := bind_ok call
  split at call <;> cases call <;> rfl

theorem resetLastActionTime_within {k : ℕ} (A : AllWithin qp)
    (call : qp.resetLastActionTime q k = .ok qp') : AllWithin qp' := by
  unfold SndQueuePair.resetLastActionTime at call
  split at call
  · cases call
    exact A
  · split at call
    · rename_i m found
      have W := A m (List.mem_of_find?_eq_some found)
      refine allWithin_subset (allWithin_update A (W.lastActionTime qp.now) k) ?_
      rw [resetMSGRTOTime_msgs call]
      exact List.Subset.refl _
    · cases call

theorem recoverMSG_within (A : AllWithin qp) : AllWithin (qp.recoverMSG q) := by
  intro x member
  rcases msgs_mem.mp member with sending | waiting | finished
  · rcases List.mem_append.mp sending with stays | back
    · obtain ⟨m, old, rfl⟩ := List.mem_map.mp stays
      have W := A m (msgs_mem.mpr (.inl old))
      split
      · exact W.recover
      · exact W
    · obtain ⟨m, old, rfl⟩ := List.mem_map.mp ((List.perm_insertionSort _ _).mem_iff.mp back)
      exact (A m (msgs_mem.mpr (.inr (.inl (List.mem_filter.mp old).1)))).recover
  · exact A x (msgs_mem.mpr (.inr (.inl (List.mem_filter.mp waiting).1)))
  · exact A x (msgs_mem.mpr (.inr (.inr finished)))

theorem bringBack_subset {isSending : Bool} {k : ℕ} (call : qp.bringBack isSending k = .ok qp') :
    qp'.msgs ⊆ qp.msgs := by
  unfold SndQueuePair.bringBack at call
  split at call
  · cases call
    exact List.Subset.refl _
  · exact moveToSending_subset call

theorem takeNack_within {isSending nack : Bool} (A : AllWithin qp) (W : Within m)
    (call : qp.takeNack q m isSending nack = .ok qp') : AllWithin qp' := by
  unfold SndQueuePair.takeNack at call
  split at call
  · exact allWithin_subset (allWithin_update A W.recover m.msgSeq) (bringBack_subset call)
  · cases call
    exact A

theorem getMsg_mem {k : ℕ} {isSending : Bool} (found : qp.getMsg k = some (m, isSending)) :
    m ∈ qp.msgs := by
  unfold SndQueuePair.getMsg at found
  split at found
  · rename_i x sending
    cases found
    exact msgs_mem.mpr (.inl (List.mem_of_find?_eq_some sending))
  · obtain ⟨x, waiting, eq⟩ := Option.map_eq_some_iff.mp found
    cases eq
    exact msgs_mem.mpr (.inr (.inl (List.mem_of_find?_eq_some waiting)))

theorem receive_within {k : ℕ} {ack : AckPacket} (A : AllWithin qp) (mode : q.cfg.mode ≠ .irn)
    (call : qp.receive q k ack = .ok qp') : AllWithin qp' := by
  have acked (call : qp.receiveAck q k ack = .ok qp') : AllWithin qp' := by
    unfold SndQueuePair.receiveAck at call
    split at call
    · split at call
      · cases call
        exact A
      · cases call
    · rename_i m isSending found
      have W := A m (getMsg_mem found)
      split at call
      · split at call
        · cases call
          exact msgComplete_within A W
        · cases call
      · have W' := W.takeAck mode ack
        generalize m.takeAck q ack = taken at call W'
        obtain ⟨m', complete⟩ := taken
        obtain ⟨nacked, nack, call⟩ := bind_ok call
        refine resetLastActionTime_within (takeNack_within ?_ W' nack) call
        split
        · exact msgComplete_within (allWithin_update A W' k) W'
        · exact allWithin_update A W' k
  unfold SndQueuePair.receive at call
  split at call
  · exact acked call
  · exact acked call
  · unfold SndQueuePair.receiveSack at call
    rw [if_pos mode] at call
    cases call

/-- The message that a packet is taken from keeps its place in the lists, or waits. -/
theorem getNxtPacket_within {pkt : DataPacket} {m' : SndMsg} {q : SndConfig} (A : AllWithin qp)
    (mode : q.cfg.mode ≠ .irn) (call : qp.getNxtPacket q = .ok (qp', m', pkt)) :
    AllWithin qp' ∧ ∃ m, qp.peek q = some m ∧ pkt.payload =
      m.op.checkPayload (m.cfg q.toQpConfig) := by
  unfold SndQueuePair.getNxtPacket at call
  obtain ⟨m, peeked, call⟩ := bind_ok call
  have peeked := orHalt_some peeked
  obtain ⟨sending, sendable⟩ := peek_mem peeked
  have left : 0 < m.bytesLeft q.toQpConfig := by
    simpa [SndMsg.sendable, mode] using sendable
  obtain ⟨seq, payload, op, next, checked, _, _, W'⟩ :=
    nextPacket_checked (A m (msgs_mem.mpr (.inl sending))) mode left
  obtain ⟨picked, pick, call⟩ := bind_ok call
  obtain rfl := Option.some.inj (next.symm.trans (orHalt_some pick))
  obtain ⟨timed, reset, call⟩ := bind_ok call
  obtain ⟨aside, put, call⟩ := bind_ok call
  cases call
  refine ⟨?_, m, peeked, checked⟩
  have U :
      AllWithin ((qp.update m.msgSeq (m.sent q.toQpConfig seq payload op)).setRRLast m.msgSeq) :=
    allWithin_update A W' _
  have B := resetLastActionTime_within U reset
  unfold SndQueuePair.putAside at put
  split at put
  · exact allWithin_subset B (moveToWaiting_subset put)
  · cases put
    exact B

theorem shouldSndData_same {q : SndConfig} {ready : Option SndMsg} (mode : q.cfg.mode ≠ .irn)
    (call : qp.shouldSndData q = .ok (qp', ready)) : qp' = qp ∧ qp.peek q = ready := by
  unfold SndQueuePair.shouldSndData at call
  split at call
  · rename_i none
    cases call
    exact ⟨rfl, none⟩
  · rename_i m found
    rw [if_neg mode] at call
    cases call
    exact ⟨rfl, found⟩

/-! ### Runs -/

namespace TokenSender

/-- What holds of the queue pair in every run. -/
structure Solvent (c : TokenConfig) (s : TokenSender) : Prop where
  within : AllWithin s.qp
  stored : Stored c.cfg.mtu s.credits

theorem mapError_ok {α : Type} {x : Except Halt α} {a : α} (h : x.mapError EpHalt.halt = .ok a) :
    x = .ok a := by
  cases x with
  | error e => cases h
  | ok b =>
    cases h
    rfl

theorem mapError_error {α : Type} {x : Except Halt α} {e : EpHalt}
    (h : x.mapError EpHalt.halt = .error e) : e ≠ .creditsEmpty := by
  cases x with
  | error h' =>
    cases h
    exact EpHalt.noConfusion
  | ok b => cases h

theorem refreshCredit_frame (c : TokenConfig) (s : TokenSender) (draws : List Bool) :
    (s.refreshCredit c draws).qp = s.qp ∧
      (s.refreshCredit c draws).credits =
        dropExpired c.creditEmin c.creditEmax s.qp.now draws s.credits ∧
      ((s.refreshCredit c draws).credits ≠ [] → (s.refreshCredit c draws).status = s.status) := by
  unfold refreshCredit
  dsimp only
  split
  · rename_i empty
    refine ⟨rfl, rfl, fun some_left => ?_⟩
    rw [Bool.and_eq_true, List.isEmpty_iff] at empty
    exact absurd empty.1 some_left
  · exact ⟨rfl, rfl, fun _ => rfl⟩

theorem refreshCredit_solvent (S : s.Solvent c) (draws : List Bool) :
    (s.refreshCredit c draws).Solvent c := by
  obtain ⟨same, credits, _⟩ := refreshCredit_frame c s draws
  refine ⟨?_, ?_⟩
  · rw [same]
    exact S.within
  · rw [credits]
    exact stored_suffix S.stored (dropExpired_suffix ..)

/-- A packet is allowed in the phase the queue pair is in, and in the scheduled phase for the
credits it costs. -/
theorem shouldSndData_spec {draws : List Bool} {allowed : Bool} (S : s.Solvent c)
    (call : s.shouldSndData c draws = .ok (t, allowed)) : t.Solvent c ∧
    (allowed = true → t.isSch c = s.isSch c ∧ ∃ m, t.qp.peek c.toSndConfig = some m ∧
        (s.isSch c = true → affords t.credits (m.op.checkPayload (m.cfg c.toQpConfig)) =
          true)) := by
  unfold shouldSndData at call
  obtain ⟨⟨qp, ready⟩, asked, call⟩ := bind_ok call
  obtain ⟨rfl, peeked⟩ := shouldSndData_same c.notIrn (mapError_ok asked)
  dsimp only at call
  split at call
  · cases call
    exact ⟨S, fun h => Bool.noConfusion h⟩
  · rename_i m
    split at call
    · rename_i sch
      obtain ⟨rfl, allows⟩ := Prod.mk.inj (Except.ok.inj call)
      obtain ⟨same, _, status⟩ := refreshCredit_frame c s draws
      refine ⟨refreshCredit_solvent S draws, fun yes => ?_⟩
      have afforded := allows.trans yes
      have some_left : (s.refreshCredit c draws).credits ≠ [] := by
        intro empty
        rw [empty] at afforded
        cases afforded
      refine ⟨?_, m, ?_, fun _ => afforded⟩
      · unfold isSch
        rw [status some_left]
      · rw [same]
        exact peeked
    · rename_i unsch
      cases call
      exact ⟨S, fun _ => ⟨rfl, m, peeked, fun sch => absurd sch unsch⟩⟩

theorem shouldSndData_error {draws : List Bool} {e : EpHalt}
    (call : s.shouldSndData c draws = .error e) : e ≠ .creditsEmpty := by
  unfold shouldSndData at call
  cases asked : (s.qp.shouldSndData c.toSndConfig).mapError EpHalt.halt with
  | error e' =>
    rw [asked] at call
    cases call
    exact mapError_error asked
  | ok res =>
    rw [asked] at call
    obtain ⟨qp, ready⟩ := res
    simp only [bind, Except.bind] at call
    split at call
    · cases call
    · split at call <;> cases call

/-- The packet of a message that `Peek` finds is paid for if the credits are worth what was
checked. -/
theorem sendingData_pays (S : s.Solvent c) (sch : s.isSch c = true)
    (peeked : s.qp.peek c.toSndConfig = some m)
    (afforded : affords s.credits (m.op.checkPayload (m.cfg c.toQpConfig)) = true) :
    ∃ seq payload op, Sender.nextPacket (m.cfg c.toQpConfig) m.op = some (seq, payload, op) ∧
      payload = m.op.checkPayload (m.cfg c.toQpConfig) ∧
      ∀ qp, ∃ credits, { s with qp := qp }.sendingData c payload =
        .ok { s with qp := qp, credits := credits } ∧
        worth credits + payload = worth s.credits ∧ Stored c.cfg.mtu credits := by
  obtain ⟨sending, sendable⟩ := peek_mem peeked
  have left : 0 < m.bytesLeft c.toQpConfig := by
    simpa [SndMsg.sendable, c.notIrn] using sendable
  obtain ⟨seq, payload, op, next, checked, pos, most, _⟩ :=
    nextPacket_checked (S.within m (msgs_mem.mpr (.inl sending))) c.notIrn left
  refine ⟨seq, payload, op, next, checked, fun qp => ?_⟩
  have size : sub32 (add32 payload c.header) c.header = payload := by
    have fits := c.packet_lt
    rw [add32_exact (by omega), sub32_exact (by omega) (Nat.le_add_left _ _), Nat.add_sub_cancel]
  rw [← checked] at afforded
  obtain ⟨credits, psn, ecn, spent, exact_worth, stored⟩ :=
    sendingData_exact S.stored (affords_worth S.stored afforded most) pos
  refine ⟨credits, ?_, exact_worth, stored⟩
  have sch' : ({ s with qp := qp } : TokenSender).isSch c = true := sch
  unfold sendingData
  dsimp only
  rw [if_pos sch', size, spent]
  rfl

/-- An admitted packet is sent without a look at an empty credit queue, and leaves the credits
sound. -/
theorem send_solvent {draws : List Bool} (S : s.Solvent c)
    (call : s.shouldSndData c draws = .ok (t, true)) :
    t.getNxtPacket c ≠ .error .creditsEmpty ∧ ∀ u, t.getNxtPacket c = .ok u → u.Solvent c := by
  obtain ⟨S', admitted⟩ := shouldSndData_spec S call
  obtain ⟨phase, m, peeked, afforded⟩ := admitted rfl
  unfold getNxtPacket
  cases nxt : (t.qp.getNxtPacket c.toSndConfig).mapError EpHalt.halt with
  | error e =>
    refine ⟨fun h => mapError_error nxt (Except.error.inj h), fun u h => by cases h⟩
  | ok res =>
    obtain ⟨qp, m', pkt⟩ := res
    obtain ⟨within, m₀, peeked', payload⟩ :=
      getNxtPacket_within S'.within c.notIrn (mapError_ok nxt)
    obtain rfl := Option.some.inj (peeked'.symm.trans peeked)
    have after : ∃ v : TokenSender, { t with qp := qp }.sendingData c pkt.payload = .ok v ∧
        v.Solvent c := by
      by_cases sch : t.isSch c = true
      · obtain ⟨_, _, _, _, same, pays⟩ := sendingData_pays S' sch peeked (afforded (phase ▸ sch))
        obtain ⟨credits, sent, _, stored⟩ := pays qp
        rw [payload, ← same]
        exact ⟨_, sent, within, stored⟩
      · unfold sendingData
        have sch' : ¬ ({ t with qp := qp } : TokenSender).isSch c = true := sch
        dsimp only
        rw [if_neg sch']
        refine ⟨_, rfl, ?_⟩
        split <;> exact ⟨within, S'.stored⟩
    obtain ⟨v, sent, V⟩ := after
    simp only [bind, Except.bind, sent]
    refine ⟨fun h => (by cases h), fun u h => ?_⟩
    cases h
    unfold resetQP
    split
    · split
      · exact ⟨V.within, stored_nil _⟩
      · exact V
    · exact V

theorem add_solvent {msgSeq size : ℕ} (S : s.Solvent c) (fits : size < 2 ^ 32) :
    ({ s with qp := s.qp.addRdmaOperation ⟨msgSeq, size, fits, {}, [], s.qp.now⟩ } :
      TokenSender).Solvent c := by
  refine ⟨fun x member => ?_, S.stored⟩
  rcases msgs_mem.mp member with sending | waiting | finished
  · rcases List.mem_append.mp sending with old | new
    · exact S.within x (msgs_mem.mpr (.inl old))
    · rw [List.mem_singleton.mp new]
      exact ⟨fun y none => absurd none (OrderedSet.not_mem_empty y),
        fun y none => absurd none (OrderedSet.not_mem_empty y)⟩
  · exact S.within x (msgs_mem.mpr (.inr (.inl waiting)))
  · exact S.within x (msgs_mem.mpr (.inr (.inr finished)))

theorem poll_outcome {draws : List Bool} (S : s.Solvent c) :
    Outcome (fun r => s.shouldSndData c draws = .ok r ∧ r.1.Solvent c) (· ≠ .creditsEmpty)
      (s.shouldSndData c draws) := by
  refine outcome_call (outcome_of (fun r asked => ?_) fun e stops empty => ?_)
  · exact (shouldSndData_spec S asked).1
  · subst empty
    exact shouldSndData_error stops rfl

theorem ackArrives_outcome {k : ℕ} {ack : AckPacket} {draws : List Bool} (S : s.Solvent c) :
    Outcome (Solvent c) (· ≠ .creditsEmpty) (s.ackArrives c k ack draws) := by
  unfold ackArrives
  cases received : (s.qp.receive c.toQpConfig k ack).mapError EpHalt.halt with
  | error e => exact mapError_error received
  | ok qp =>
    have S' : ({ s with qp := qp } : TokenSender).Solvent c :=
      ⟨receive_within S.within c.notIrn (mapError_ok received), S.stored⟩
    show Solvent c (if _ then _ else _)
    split
    · exact refreshCredit_solvent S' draws
    · exact S'

theorem disabled_found : EpHalt.halt .disabled ≠ .creditsEmpty := by
  intro same
  cases same

theorem step_solvent (S : s.Solvent c) (ev : TokenEvent) :
    Outcome (Solvent c) (· ≠ .creditsEmpty) (s.step c ev) := by
  cases ev with
  | add msgSeq size =>
    dsimp only [step]
    split
    · exact add_solvent S _
    · exact disabled_found
  | tick now =>
    dsimp only [step]
    split
    · exact ⟨S.within, S.stored⟩
    · exact disabled_found
  | timeout =>
    dsimp only [step]
    split
    · exact ⟨recoverMSG_within S.within, S.stored⟩
    · exact disabled_found
  | tokenArrives number ecn =>
    dsimp only [step]
    unfold storeCredit
    dsimp only
    split <;> exact ⟨S.within, stored_concat S.stored c.cfg.mtu_pos rfl⟩
  | poll draws => exact outcome_map (outcome_weaken (poll_outcome S) fun _ asked => asked.2)
  | send draws =>
    refine outcome_bind (poll_outcome S) ?_
    rintro ⟨t, allowed⟩ ⟨asked, -⟩
    dsimp only
    split
    · rename_i yes
      rw [yes] at asked
      obtain ⟨found, solvent⟩ := send_solvent S asked
      exact outcome_of solvent fun e stops empty => found (empty ▸ stops)
    · exact disabled_found
  | ackArrives k ack draws => exact ackArrives_outcome S

theorem reachable_solvent (run : Reachable c s) : s.Solvent c := by
  induction run with
  | initial => exact ⟨fun m member => (by cases member), stored_nil _⟩
  | step _ call S => exact outcome_result (step_solvent S _) call

/-- Credits are spent exactly: every stored credit has something left, at most a payload;
`SendingData` never looks for a credit that is not there; and a packet that `ShouldSndData` allows
in the scheduled phase is the one `GetNxtPacket` builds and takes its payload from the credits, no
more and no less. -/
theorem credits_exact (run : Reachable c s) :
    (∀ credit ∈ s.credits, 0 < credit.remain ∧ credit.remain ≤ c.cfg.mtu) ∧
    (∀ ev, s.step c ev ≠ .error .creditsEmpty) ∧
    ∀ draws t, s.shouldSndData c draws = .ok (t, true) → s.isSch c = true →
      ∃ m seq payload op, t.qp.peek c.toSndConfig = some m ∧
        Sender.nextPacket (m.cfg c.toQpConfig) m.op = some (seq, payload, op) ∧
        (∀ qp m' pkt, t.qp.getNxtPacket c.toSndConfig = .ok (qp, m', pkt) → pkt.payload = payload) ∧
        ∀ qp, ∃ credits, { t with qp := qp }.sendingData c payload =
          .ok { t with qp := qp, credits := credits } ∧
          worth credits + payload = worth t.credits := by
  have S := reachable_solvent run
  refine ⟨S.stored.remain, fun ev stops => outcome_stop (step_solvent S ev) stops rfl,
    fun draws t asked sch => ?_⟩
  obtain ⟨S', admitted⟩ := shouldSndData_spec S asked
  obtain ⟨phase, m, peeked, afforded⟩ := admitted rfl
  obtain ⟨seq, payload, op, next, checked, pays⟩ :=
    sendingData_pays S' (phase.trans sch) peeked (afforded sch)
  refine ⟨m, seq, payload, op, peeked, next, fun qp m' pkt built => ?_, fun qp => ?_⟩
  · obtain ⟨_, m₀, peeked', same⟩ := getNxtPacket_within S'.within c.notIrn built
    obtain rfl := Option.some.inj (peeked'.symm.trans peeked)
    rw [same, checked]
  · obtain ⟨credits, sent, exact_worth, _⟩ := pays qp
    exact ⟨credits, sent, exact_worth⟩

/-- Dis-order with packets of 10 bytes and no unscheduled phase. -/
def smallToken : TokenConfig where
  toSndConfig := ⟨⟨{ Session.smallConfig .disOrder 0 with l4Token := true }, 1, true⟩, .fifo⟩
  notIrn := by decide
  l4Token := rfl
  maxUnschCount := 0
  maxBdp := 100
  rcvTkn := true
  resetQpRate := false
  creditEmin := 10
  creditEmax := 40
  header := 76
  packet_lt := by decide

/-- A message of 15 bytes on two credits, half of the second one left; then its first packet is sent
again, on what is left and on half of a third credit. -/
def splitCredit : List TokenEvent :=
  [.add 1 15, .tokenArrives 0 false, .tokenArrives 1 false, .send [], .send [],
    .tokenArrives 2 false, .tick 1000, .timeout, .send []]

theorem credits_exact_split : ∃ s : TokenSender, Reachable smallToken s ∧ worth s.credits = 5 ∧
    (∀ credit ∈ s.credits, 0 < credit.remain ∧ credit.remain ≤ 10) ∧
    ∀ ev, s.step smallToken ev ≠ .error .creditsEmpty := by
  have ends : (run smallToken {} splitCredit).toOption.any (fun s => decide (worth s.credits = 5)) =
      true := by
    decide +kernel
  obtain ⟨s, ends, left⟩ := (Option.any_eq_true ..).mp ends
  have reached := reachable_run smallToken .initial (toOption_eq_some.mp ends)
  obtain ⟨remain, finds, _⟩ := credits_exact reached
  exact ⟨s, reached, of_decide_eq_true left, remain, finds⟩

end TokenSender

end Rdma

end Pyrrha

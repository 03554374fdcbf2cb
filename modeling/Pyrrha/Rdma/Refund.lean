import Pyrrha.Rdma.Quota

/-!
Whether the quota of a host is conserved. What a marked packet was charged comes back with its
acknowledgement, unless the message is finished before: with `AllowDisOrder()` the last
acknowledgement can overtake others.
-/

namespace Pyrrha
open Lib

namespace Rdma

variable {c : QuotaConfig} {q : SndConfig} {qp : SndQueuePair} {m m' : SndMsg} {payload : ℕ}

/-! ### The message a packet is taken from -/

/-- The message is not sent again, and the end of its next packet is a `uint32_t`. -/
structure Plain (q : QpConfig) (m : SndMsg) : Prop where
  fresh : ¬(q.cfg.mode = .disOrder ∧ m.op.timeouted = true ∧ m.op.timeoutPsn.elems ≠ [])
  noRtx : q.cfg.mode = .irn → m.op.irn.rtxSeqQueues = []
  fits : m.op.sndNxt + q.cfg.mtu < 2 ^ 32

instance decidablePlain (q : QpConfig) (m : SndMsg) : Decidable (Plain q m) :=
  decidable_of_iff (¬(q.cfg.mode = .disOrder ∧ m.op.timeouted = true ∧ m.op.timeoutPsn.elems ≠ []) ∧
    (q.cfg.mode = .irn → m.op.irn.rtxSeqQueues = []) ∧ m.op.sndNxt + q.cfg.mtu < 2 ^ 32)
    ⟨fun h => ⟨h.1, h.2.1, h.2.2⟩, fun h => ⟨h.fresh, h.noRtx, h.fits⟩⟩

theorem plain_left (cfg : Config) {op : SndOperation}
    (fresh : ¬(cfg.mode = .disOrder ∧ op.timeouted = true ∧ op.timeoutPsn.elems ≠ []))
    (noRtx : cfg.mode = .irn → op.irn.rtxSeqQueues = []) :
    op.getBytesLeft cfg = cfg.size - op.sndNxt := by
  unfold SndOperation.getBytesLeft
  dsimp only
  rw [if_neg fresh]
  split
  · rename_i irn
    rw [noRtx irn]
    rfl
  · rfl

theorem plain_psn {cfg : Config} {op op' : SndOperation} {seq : ℕ}
    (fresh : ¬(cfg.mode = .disOrder ∧ op.timeouted = true ∧ op.timeoutPsn.elems ≠ []))
    (h : op.nextPsn cfg = some (seq, op')) :
    seq = op.sndNxt % 2 ^ 32 ∧ op'.sndNxt = op.sndNxt ∧ op'.timeouted = op.timeouted ∧
      op'.timeoutPsn = op.timeoutPsn ∧ op'.irn = op.irn := by
  unfold SndOperation.nextPsn at h
  dsimp only at h
  split at h
  · cases h
    exact ⟨rfl, rfl, rfl, rfl, rfl⟩
  · rename_i mode
    split at h
    · rename_i first rest again psns
      have timeouted : op.timeouted = true := (Bool.and_eq_true _ _ ▸ again).1
      refine (fresh ⟨not_not.mp mode, timeouted, ?_⟩).elim
      rw [psns]
      exact List.cons_ne_nil _ _
    · cases h
      exact ⟨rfl, rfl, rfl, rfl, rfl⟩

/-- A new packet is as long as the message has bytes left, up to a full payload, and leaves them to
be sent. -/
theorem plain_payload (cfg : Config) {op op' : SndOperation} {seq : ℕ}
    (fresh : ¬(cfg.mode = .disOrder ∧ op.timeouted = true ∧ op.timeoutPsn.elems ≠ []))
    (fits : op.sndNxt + cfg.mtu < 2 ^ 32) (some_left : op.sndNxt < cfg.size)
    (h : op.getNxtPayload cfg = some (seq, payload, op')) :
    payload = min cfg.mtu (cfg.size - op.sndNxt) ∧ op'.sndNxt = op.sndNxt ∧
    op'.timeouted = op.timeouted ∧ op'.timeoutPsn = op.timeoutPsn ∧ op'.irn = op.irn := by
  obtain ⟨⟨picked, mid⟩, psn, h⟩ := Option.bind_eq_some_iff.mp h
  obtain ⟨value, same⟩ := plain_psn fresh psn
  have size_lt := cfg.size_lt
  have small : picked = op.sndNxt := value.trans (Nat.mod_eq_of_lt (some_left.trans size_lt))
  cases h
  refine ⟨?_, same⟩
  subst small
  rw [add32_exact fits, sub32_exact size_lt some_left.le]
  split <;> omega

theorem plain_pick {op : SndOperation} {q : QpConfig} {seq : ℕ} (plain : Plain q m)
    (sendable : m.sendable q = true)
    (h : Sender.nextPacket (m.cfg q) m.op = some (seq, payload, op)) :
    payload = min q.cfg.mtu (m.bytesLeft q) ∧ 0 < m.bytesLeft q ∧ m.bytesLeft q < 2 ^ 32 ∧
      ({ m with op := op } : SndMsg).bytesLeft q = m.bytesLeft q := by
  have left : m.bytesLeft q = m.size - m.op.sndNxt := plain_left (m.cfg q) plain.fresh plain.noRtx
  have size_lt := m.size_lt
  have pos : 0 < m.bytesLeft q := by
    unfold SndMsg.sendable at sendable
    rw [Bool.or_eq_true, Bool.and_eq_true] at sendable
    rcases sendable with bytes | ⟨irn, rtx⟩
    · exact of_decide_eq_true bytes
    · rw [plain.noRtx (of_decide_eq_true irn)] at rtx
      cases rtx
  have some_left : m.op.sndNxt < (m.cfg q).size := by
    show m.op.sndNxt < m.size
    omega
  have after : payload = min q.cfg.mtu (m.size - m.op.sndNxt) ∧ op.sndNxt = m.op.sndNxt ∧
      op.timeouted = m.op.timeouted ∧ op.timeoutPsn = m.op.timeoutPsn ∧
        (q.cfg.mode = .irn → op.irn.rtxSeqQueues = []) := by
    unfold Sender.nextPacket at h
    split at h
    · rename_i mode
      rw [plain.noRtx mode] at h
      obtain ⟨⟨picked, bytes, mid⟩, taken, h⟩ := Option.bind_eq_some_iff.mp h
      obtain ⟨value, nxt, again, psns, -⟩ :=
        plain_payload (m.cfg q) plain.fresh plain.fits some_left taken
      cases h
      exact ⟨value, nxt, again, psns, fun _ => rfl⟩
    · rename_i mode
      obtain ⟨value, nxt, again, psns, -⟩ :=
        plain_payload (m.cfg q) plain.fresh plain.fits some_left h
      exact ⟨value, nxt, again, psns, fun irn => (mode irn).elim⟩
  obtain ⟨value, nxt, again, psns, rtx⟩ := after
  refine ⟨left ▸ value, pos, by omega, ?_⟩
  have fresh : ¬(q.cfg.mode = .disOrder ∧ op.timeouted = true ∧ op.timeoutPsn.elems ≠ []) := by
    rw [again, psns]
    exact plain.fresh
  have left' : op.getBytesLeft (m.cfg q) = m.size - op.sndNxt := plain_left (m.cfg q) fresh rtx
  rw [left, ← nxt]
  exact left'

/-! ### The message `Peek` finds -/

theorem find_update {l : List SndMsg} {p : SndMsg → Bool} (found : l.find? p = some m)
    (passes : p m' = true) :
    (l.map fun old => if old.msgSeq = m.msgSeq then m' else old).find? p = some m' := by
  induction l with
  | nil => cases found
  | cons x rest ih =>
    rw [List.map_cons]
    by_cases same : x.msgSeq = m.msgSeq
    · rw [if_pos same, List.find?_cons_of_pos passes]
    · rw [if_neg same]
      cases here : p x with
      | true =>
        rw [List.find?_cons_of_pos here] at found
        cases found
        exact (same rfl).elim
      | false =>
        have fails : ¬ p x = true := by simp [here]
        rw [List.find?_cons_of_neg fails] at found
        rw [List.find?_cons_of_neg fails]
        exact ih found

theorem peekFIFORound_le {q : QpConfig} {msg : Option SndMsg} {curr x : SndMsg}
    (candidate : msg = some x ∨ curr = x ∧ x.sendable q = true) :
    ∃ z, SndQueuePair.peekFIFORound q msg curr = some z ∧ z.msgSeq ≤ x.msgSeq := by
  unfold SndQueuePair.peekFIFORound
  rcases candidate with rfl | ⟨rfl, sendable⟩
  · dsimp only
    split
    · split
      · rename_i less
        exact ⟨curr, rfl, less.le⟩
      · exact ⟨x, rfl, le_rfl⟩
    · exact ⟨x, rfl, le_rfl⟩
  · rw [if_pos sendable]
    cases msg with
    | none => exact ⟨curr, rfl, le_rfl⟩
    | some y =>
      dsimp only
      split
      · exact ⟨curr, rfl, le_rfl⟩
      · rename_i least
        exact ⟨y, rfl, not_lt.mp least⟩

/-- `PeekFIFOMsg` finds a message with the least number of those with packets to send. -/
theorem peekFIFOMsg_le {q : QpConfig} {l : List SndMsg} {msg : Option SndMsg} {x : SndMsg}
    (candidate : msg = some x ∨ x ∈ l ∧ x.sendable q = true) :
    ∃ z, l.foldl (SndQueuePair.peekFIFORound q) msg = some z ∧ z.msgSeq ≤ x.msgSeq := by
  induction l generalizing msg x with
  | nil =>
    rcases candidate with rfl | ⟨inside, -⟩
    · exact ⟨x, rfl, le_rfl⟩
    · cases inside
  | cons y rest ih =>
    rw [List.foldl_cons]
    have round : (msg = some x ∨ y = x ∧ x.sendable q = true) ∨ x ∈ rest ∧ x.sendable q = true := by
      rcases candidate with before | ⟨inside, sendable⟩
      · exact .inl (.inl before)
      · rcases List.mem_cons.mp inside with rfl | later
        · exact .inl (.inr ⟨rfl, sendable⟩)
        · exact .inr ⟨later, sendable⟩
    rcases round with here | later
    · obtain ⟨z, found, le⟩ := peekFIFORound_le here
      obtain ⟨w, final, le'⟩ := ih (.inl found)
      exact ⟨w, final, le'.trans le⟩
    · exact ih (.inr later)

theorem peekFIFOMsg_finds {q : QpConfig} {x : SndMsg} (inside : x ∈ qp.rdmaMsgsSending)
    (sendable : x.sendable q = true) : ∃ z, qp.peekFIFOMsg q = some z ∧ z.msgSeq ≤ x.msgSeq :=
  peekFIFOMsg_le (.inr ⟨inside, sendable⟩)

/-- A message that is picked is still picked after a change that leaves it packets to send. -/
theorem peek_update (picked : qp.peek q = some m) (same : m'.msgSeq = m.msgSeq)
    (sendable : m'.sendable q.toQpConfig = true) : (qp.update m.msgSeq m').peek q = some m' := by
  have here : m' ∈ (qp.update m.msgSeq m').rdmaMsgsSending :=
    List.mem_map.mpr ⟨m, (peek_mem picked).1, if_pos rfl⟩
  unfold SndQueuePair.peek at picked ⊢
  cases kind : q.msgScheduler with
  | fifo =>
    rw [kind] at picked
    dsimp only at picked ⊢
    obtain ⟨z, found, le⟩ := peekFIFOMsg_finds here sendable
    refine found.trans (congrArg some ?_)
    rcases peekFIFOMsg_mem found with none | ⟨inside, ready⟩
    · cases none
    · rcases mem_update inside with ⟨before, other⟩ | ⟨rfl, -⟩
      · obtain ⟨w, first, least⟩ := peekFIFOMsg_finds before ready
        cases picked.symm.trans first
        exact (other (le_antisymm (same ▸ le) least)).elim
      · rfl
  | rr =>
    rw [kind] at picked
    dsimp only at picked ⊢
    unfold SndQueuePair.peekRRMsg at picked ⊢
    have turned : (qp.update m.msgSeq m').rdmaMsgsSending.rotate (qp.update m.msgSeq m').rrlastMsg =
        (qp.rdmaMsgsSending.rotate qp.rrlastMsg).map fun old =>
          if old.msgSeq = m.msgSeq then m' else old :=
      (List.map_rotate ..).symm
    rw [turned]
    exact find_update picked sendable

namespace QuotaHost

variable {s t : QuotaHost c} {k : Fin c.n} {ev : QuotaEvent c.n}

/-! ### The quotas and what they are charged -/

/-- A marked packet that is charged to the quota for `d`, with its header. -/
def chargedData (c : QuotaConfig) (d : ℕ) (x : MarkedData c.n) : Bool :=
  x.usch.isSome && (!c.perDst || decide (c.dst x.qp = d))

def chargedAck (c : QuotaConfig) (d : ℕ) (x : MarkedAck c.n) : Bool :=
  x.usch.isSome && (!c.perDst || decide (c.dst x.qp = d))

/-- The payload and header bytes of the packets that are charged to the quota for `d` and whose
acknowledgement has not reached the host. -/
def owed (s : QuotaHost c) (d : ℕ) : ℕ :=
  tally (fun x => x.flight.pkt.payload + c.header) (chargedData c d) s.data +
    tally (fun x => x.payload + c.header) (chargedAck c d) s.acks

/-- Every `UschTag` has the payload of its packet, and what is owed is missing from the quota. -/
structure Conserved (s : QuotaHost c) : Prop where
  data : ∀ x ∈ s.data, ∀ size, x.usch = some size → size = x.flight.pkt.payload ∧ size ≤ c.cfg.mtu
  acks : ∀ x ∈ s.acks, ∀ size, x.usch = some size → size = x.payload ∧ size ≤ c.cfg.mtu
  books : ∀ d, s.left d + s.owed d = c.setQuota

theorem updateQuota_left (s : QuotaHost c) (size : ℕ) (isadd : Bool) (d d' : ℕ) :
    (s.updateQuota size isadd d).left d' =
      if !c.perDst || decide (d = d') then
        if isadd then add32 (s.left d') (add32 size c.header)
          else sub32 (s.left d') (add32 size c.header)
      else s.left d' := by
  unfold updateQuota left
  cases dsts : c.perDst with
  | false => simp only [Bool.not_false, Bool.true_or, Bool.false_eq_true, if_true, if_false]
  | true =>
    simp only [Bool.not_true, Bool.false_or, decide_eq_true_eq, if_true]
    by_cases same : d = d'
    · subst same
      rw [if_pos rfl, Function.update_self]
    · rw [if_neg same, Function.update_of_ne (Ne.symm same)]

theorem updateTagged_frame (s : QuotaHost c) (usch : Option ℕ) (isadd : Bool) (d : ℕ) :
    (s.updateTagged usch isadd d).data = s.data ∧ (s.updateTagged usch isadd d).acks = s.acks ∧
      (s.updateTagged usch isadd d).pairs = s.pairs := by
  unfold updateTagged updateQuota
  cases usch with
  | none => exact ⟨rfl, rfl, rfl⟩
  | some size => cases c.perDst <;> exact ⟨rfl, rfl, rfl⟩

theorem Conserved.frame (K : s.Conserved) (quota : t.quota = s.quota)
    (dsts : t.quotaDsts = s.quotaDsts)
    (data : t.data = s.data) (acks : t.acks = s.acks) : t.Conserved := by
  refine ⟨?_, ?_, fun d => ?_⟩
  · rw [data]
    exact K.data
  · rw [acks]
    exact K.acks
  · unfold left owed
    rw [quota, dsts, data, acks]
    exact K.books d

/-! ### The conditions -/

/-- The conditions on a step. A packet that is to be marked is not sent again, and `CheckUschQuota`
has seen it as unscheduled unless the quota suffices anyway; every marked packet is acknowledged
when it arrives; and no marked acknowledgement arrives when its message is finished. -/
def Accounted (s : QuotaHost c) : QuotaEvent c.n → Prop
  | .send k true =>
    ∀ r ∈ ((s.pairs k).qp.shouldSndData c.toSndConfig).toOption, ∀ x ∈ pickNxt c r.1,
      add32 (s.pairs k).nxtPsn x.2.1 < c.uschLimit →
        Plain c.toQpConfig x.1 ∧
        ((s.pairs k).nxtPsn < c.uschLimit ∨ x.2.1 + c.header ≤ s.left (c.dst k))
  | .dataArrives i expired =>
    ∀ x ∈ s.data[i]?, x.usch ≠ none →
      ∀ r ∈ ((s.pairs x.qp).rcvs x.flight.msgSeq).receiveUdp
        (msgConfig c x.flight) x.flight.pkt expired, r.2 ≠ none
  | .ackArrives i => ∀ x ∈ s.acks[i]?, x.usch ≠ none → (s.pairs x.qp).qp.getMsg x.msgSeq ≠ none
  | _ => True

/-! ### Steps -/

theorem setQuota_lt (c : QuotaConfig) : c.setQuota < 2 ^ 32 := Nat.mod_lt _ (by decide)

theorem Conserved.left_le (K : s.Conserved) (d : ℕ) : s.left d ≤ c.setQuota := by
  have := K.books d
  omega

theorem left_same {d d' : ℕ} (shared : (!c.perDst || decide (d = d')) = true) :
    s.left d' = s.left d := by
  unfold left
  cases dsts : c.perDst with
  | false => rfl
  | true =>
    rw [dsts] at shared
    rw [of_decide_eq_true shared]

theorem pickNxt_some (picked : pickNxt c qp = some (m, payload, m')) :
    qp.peek c.toSndConfig = some m ∧ ∃ seq op,
      Sender.nextPacket (m.cfg c.toQpConfig) m.op = some (seq, payload, op) ∧
      m' = { m with op := op } := by
  obtain ⟨m₀, peeked, picked⟩ := Option.bind_eq_some_iff.mp picked
  obtain ⟨⟨seq, bytes, op⟩, next, picked⟩ := Option.bind_eq_some_iff.mp picked
  cases picked
  exact ⟨peeked, seq, op, next, rfl⟩

theorem getNxtPacket_payload {qp' : SndQueuePair} {n : SndMsg} {pkt : DataPacket}
    (picked : pickNxt c qp = some (m, payload, m')) (call : qp.getNxtPacket c.toSndConfig =
      .ok (qp', n, pkt)) :
    pkt.payload = payload := by
  obtain ⟨peeked, seq, op, next, -⟩ := pickNxt_some picked
  unfold SndQueuePair.getNxtPacket at call
  rw [peeked] at call
  obtain ⟨m₀, same, call⟩ := bind_ok call
  obtain rfl := Except.ok.inj same
  rw [next] at call
  obtain ⟨⟨seq', bytes, op'⟩, same, call⟩ := bind_ok call
  cases Except.ok.inj same
  obtain ⟨s₁, -, call⟩ := bind_ok call
  obtain ⟨s₂, -, call⟩ := bind_ok call
  cases Except.ok.inj call
  rfl

theorem marked_spec {nxtPsn size : ℕ} (picked : pickNxt c (s.pairs k).qp = some (m, payload, m'))
    (plain : Plain c.toQpConfig m)
    (room : (s.pairs k).nxtPsn < c.uschLimit ∨ payload + c.header ≤ s.left (c.dst k))
    (checked : s.checkUschQuota k = true)
    (marked : c.uschTag ((s.pairs k).qp.update m.msgSeq m') nxtPsn = some size) :
    size = payload ∧ size ≤ c.cfg.mtu ∧ size + c.header ≤ s.left (c.dst k) := by
  obtain ⟨peeked, seq, op, next, rfl⟩ := pickNxt_some picked
  obtain ⟨-, sendable⟩ := peek_mem peeked
  obtain ⟨value, pos, small, kept⟩ := plain_pick plain sendable next
  have still : ({ m with op := op } : SndMsg).sendable c.toQpConfig = true := by
    unfold SndMsg.sendable
    rw [kept, decide_eq_true pos, Bool.true_or]
  have left : (s.pairs k).qp.getBytesLeft c.toSndConfig = m.bytesLeft c.toQpConfig := by
    unfold SndQueuePair.getBytesLeft
    rw [peeked]
    rfl
  have left' : ((s.pairs k).qp.update m.msgSeq { m with op := op }).getBytesLeft c.toSndConfig =
      m.bytesLeft c.toQpConfig := by
    unfold SndQueuePair.getBytesLeft
    have seq_same : ({ m with op := op } : SndMsg).msgSeq = m.msgSeq := rfl
    rw [peek_update peeked seq_same still]
    exact kept
  have exact_left : m.bytesLeft c.toQpConfig % 2 ^ 32 = m.bytesLeft c.toQpConfig :=
    Nat.mod_eq_of_lt small
  unfold QuotaConfig.uschTag at marked
  rw [left', exact_left] at marked
  dsimp only at marked
  split at marked
  · cases marked
    have whole := c.packet_lt
    have size_le : min (m.bytesLeft c.toQpConfig) c.cfg.mtu ≤ c.cfg.mtu := min_le_right _ _
    have same : min (m.bytesLeft c.toQpConfig) c.cfg.mtu = payload :=
      (min_comm _ _).trans value.symm
    refine ⟨same, size_le, ?_⟩
    rcases room with before | enough
    · unfold checkUschQuota at checked
      rw [left, exact_left] at checked
      dsimp only at checked
      rw [if_pos ⟨pos, before⟩, add32_exact (by omega)] at checked
      exact of_decide_eq_true checked
    · rw [same]
      exact enough
  · cases marked

theorem Conserved.sent {u : QuotaHost c} {x : MarkedData c.n} (K : s.Conserved)
    (data : u.data = s.data)
    (acks : u.acks = s.acks) (tag : ∀ size, x.usch = some size → size = x.flight.pkt.payload ∧
      size ≤ c.cfg.mtu)
    (taken : ∀ d, u.left d + (if chargedData c d x then x.flight.pkt.payload + c.header else 0) =
      s.left d) :
    { u with data := u.data ++ [x] }.Conserved := by
  refine ⟨fun y inside => ?_, ?_, fun d => ?_⟩
  · rcases List.mem_append.mp inside with old | new
    · exact K.data y (data ▸ old)
    · rw [List.mem_singleton.mp new]
      exact tag
  · dsimp only
    rw [acks]
    exact K.acks
  · have books := K.books d
    have paid := taken d
    unfold owed at books ⊢
    dsimp only
    rw [tally_concat, data, acks]
    show u.left d + _ = _
    omega

theorem getNxtPacket_conserved (K : s.Conserved) (checked : s.checkUschQuota k = true)
    (accounted : ∀ x ∈ pickNxt c (s.pairs k).qp, add32 (s.pairs k).nxtPsn x.2.1 < c.uschLimit →
      Plain c.toQpConfig x.1 ∧
      ((s.pairs k).nxtPsn < c.uschLimit ∨ x.2.1 + c.header ≤ s.left (c.dst k)))
    (call : s.getNxtPacket k = .ok t) : t.Conserved := by
  unfold getNxtPacket at call
  obtain ⟨⟨m, payload, m'⟩, found, call⟩ := bind_ok call
  have picked : pickNxt c (s.pairs k).qp = some (m, payload, m') := by
    cases pick : pickNxt c (s.pairs k).qp with
    | none =>
      rw [pick] at found
      cases found
    | some x =>
      rw [pick] at found
      cases found
      rfl
  obtain ⟨⟨qp, n, pkt⟩, got, call⟩ := bind_ok call
  have same := getNxtPacket_payload picked got
  obtain rfl := Except.ok.inj call
  cases tag : c.uschTag ((s.pairs k).qp.update m.msgSeq m') (add32 (s.pairs k).nxtPsn payload) with
  | none =>
    refine K.sent rfl rfl (fun size marked => ?_) fun d => ?_
    · cases marked
    · rfl
  | some size =>
    have scheduled : add32 (s.pairs k).nxtPsn payload < c.uschLimit := by
      unfold QuotaConfig.uschTag at tag
      dsimp only at tag
      split at tag
      · rename_i early
        exact early.2
      · cases tag
    obtain ⟨plain, room⟩ := accounted _ picked scheduled
    obtain ⟨value, short, fits⟩ := marked_spec picked plain room checked tag
    have whole := c.packet_lt
    obtain ⟨data, acks, -⟩ := updateTagged_frame
      (s.withPair k { s.pairs k with qp := qp, nxtPsn := add32 (s.pairs k).nxtPsn payload })
        (some size) false (c.dst k)
    refine K.sent data acks (fun size' marked => ?_) fun d => ?_
    · cases marked
      exact ⟨value.trans same.symm, short⟩
    · have change := updateQuota_left
        (s.withPair k { s.pairs k with qp := qp, nxtPsn := add32 (s.pairs k).nxtPsn payload }) size
          false (c.dst k) d
      have charged : chargedData c d ⟨k, ⟨n.msgSeq, n.size, n.size_lt, pkt⟩, some size⟩ =
          (!c.perDst || decide (c.dst k = d)) := by
        unfold chargedData
        rw [Option.isSome_some, Bool.true_and]
      unfold updateTagged
      rw [charged]
      refine (congrArg (· + _) change).trans ?_
      split
      · rename_i shared
        have here : s.left d = s.left (c.dst k) := left_same shared
        have small := setQuota_lt c
        have bound := K.left_le d
        have kept : (s.withPair k
            { s.pairs k with qp := qp, nxtPsn := add32 (s.pairs k).nxtPsn payload }).left d =
              s.left d := rfl
        rw [if_neg Bool.false_ne_true, kept, add32_exact (by omega),
          sub32_exact (by omega) (by omega)]
        dsimp only
        omega
      · rfl

theorem send_conserved {allowed : Bool} (K : s.Conserved)
    (accounted : s.Accounted (.send k allowed))
    (call : s.send k allowed = .ok t) : t.Conserved := by
  unfold send at call
  obtain ⟨⟨qp, ready⟩, asked, next⟩ := bind_ok call
  have K' : (s.withQp k qp).Conserved := K.frame rfl rfl rfl rfl
  dsimp only at next
  split at next
  · rename_i go
    rw [Bool.and_eq_true, Bool.and_eq_true] at go
    obtain ⟨⟨-, checked⟩, rfl⟩ := go
    refine getNxtPacket_conserved K' checked (fun x picked early => ?_) next
    have here : ((s.withQp k qp).pairs k) = { s.pairs k with qp := qp } := Function.update_self ..
    rw [here] at picked early ⊢
    exact accounted (qp, ready) (toOption_eq_some.mpr asked) x picked early
  · obtain rfl := Except.ok.inj next
    exact K'

theorem delivered {α : Type} {p : Prop} [Decidable p] {x : Option α} {a : α}
    (h : orHalt .disabled (if p then x else none) = .ok a) : x = some a := by
  have found := orHalt_some h
  split at found
  · exact found
  · cases found

theorem dataArrives_conserved {i : ℕ} {expired : Bool} (K : s.Conserved)
    (accounted : s.Accounted (.dataArrives i expired)) (call : s.dataArrives i expired = .ok t) :
    t.Conserved := by
  unfold dataArrives at call
  obtain ⟨x, found, call⟩ := bind_ok call
  have found := delivered found
  obtain ⟨⟨rcv, ack⟩, received, call⟩ := bind_ok call
  obtain rfl := Except.ok.inj call
  have member : x ∈ s.data := List.mem_of_getElem? found
  refine ⟨fun y inside => K.data y (List.eraseIdx_subset inside), fun y inside size marked => ?_,
    fun d => ?_⟩
  · rcases List.mem_append.mp inside with old | new
    · exact K.acks y old size marked
    · obtain ⟨a, -, rfl⟩ := List.mem_map.mp new
      exact K.data x member size marked
  · have books := K.books d
    have taken := tally_eraseIdx (w := fun x : MarkedData c.n => x.flight.pkt.payload + c.header)
      (p := chargedData c d) found
    have copied : tally (fun x : MarkedAck c.n => x.payload + c.header) (chargedAck c d)
        (ack.toList.map fun ack => ⟨x.qp, x.flight.msgSeq, ack, x.usch, x.flight.pkt.payload⟩) =
          if chargedData c d x then x.flight.pkt.payload + c.header else 0 := by
      cases ack with
      | none =>
        have unmarked : x.usch = none := by
          by_contra marked
          exact accounted x found marked _ (orHalt_some received) rfl
        unfold chargedData
        rw [unmarked]
        rfl
      | some a =>
        rw [Option.toList_some, List.map_singleton, tally_cons, tally_nil, Nat.add_zero]
        rfl
    unfold owed at books ⊢
    dsimp only
    rw [tally_append, copied]
    show s.left d + (tally _ _ (s.data.eraseIdx i) + (tally _ _ s.acks + _)) = _
    omega

theorem ackArrives_conserved {i : ℕ} (K : s.Conserved) (accounted : s.Accounted (.ackArrives i))
    (call : s.ackArrives i = .ok t) : t.Conserved := by
  unfold ackArrives at call
  obtain ⟨x, found, call⟩ := bind_ok call
  have found := delivered found
  obtain ⟨qp, -, call⟩ := bind_ok call
  obtain rfl := Except.ok.inj call
  have member : x ∈ s.acks := List.mem_of_getElem? found
  have taken := fun d => tally_eraseIdx (w := fun x : MarkedAck c.n => x.payload + c.header)
    (p := chargedAck c d) found
  cases tag : x.usch with
  | none =>
    have uncharged : ∀ d, chargedAck c d x = false := by
      intro d
      unfold chargedAck
      rw [tag]
      rfl
    have same : (if ((s.pairs x.qp).qp.getMsg x.msgSeq).isSome then s.updateTagged none true
        (c.dst x.qp) else s) = s :=
      ite_self s
    rw [same]
    refine ⟨K.data, fun y inside => K.acks y (List.eraseIdx_subset inside), fun d => ?_⟩
    have books := K.books d
    have rest := taken d
    rw [uncharged d, if_neg Bool.false_ne_true, Nat.add_zero] at rest
    unfold owed at books ⊢
    dsimp only
    rw [rest]
    exact books
  | some size =>
    have known : ((s.pairs x.qp).qp.getMsg x.msgSeq).isSome = true := by
      rw [Option.isSome_iff_ne_none]
      exact accounted x found (by rw [tag]; exact Option.some_ne_none _)
    obtain ⟨value, short⟩ := K.acks x member size tag
    obtain ⟨data, acks, -⟩ := updateTagged_frame s (some size) true (c.dst x.qp)
    rw [if_pos known]
    refine ⟨?_, fun y inside => ?_, fun d => ?_⟩
    · show ∀ y ∈ (s.updateTagged (some size) true (c.dst x.qp)).data, _
      rw [data]
      exact K.data
    · have inside : y ∈ (s.updateTagged (some size) true (c.dst x.qp)).acks.eraseIdx i := inside
      rw [acks] at inside
      exact K.acks y (List.eraseIdx_subset inside)
    · have books := K.books d
      have rest := taken d
      have change : (s.updateTagged (some size) true (c.dst x.qp)).left d = _ :=
        updateQuota_left s size true (c.dst x.qp) d
      have charged : chargedAck c d x = (!c.perDst || decide (c.dst x.qp = d)) := by
        unfold chargedAck
        rw [tag, Option.isSome_some, Bool.true_and]
      rw [charged] at rest
      have whole := c.packet_lt
      have small := setQuota_lt c
      unfold owed at books ⊢
      show (s.updateTagged (some size) true (c.dst x.qp)).left d +
        (tally _ _ (s.updateTagged (some size) true (c.dst x.qp)).data +
          tally _ _ ((s.updateTagged (some size) true (c.dst x.qp)).acks.eraseIdx i)) = _
      rw [data, acks, change]
      split at rest
      · rename_i shared
        have bytes : add32 size c.header = size + c.header := add32_exact (by omega)
        rw [if_pos shared, if_pos rfl, bytes, add32_exact (by omega)]
        omega
      · rename_i apart
        rw [if_neg apart]
        omega

theorem step_conserved (K : s.Conserved) (accounted : s.Accounted ev) (call : s.step ev = .ok t) :
    t.Conserved := by
  cases ev with
  | add k msgSeq size =>
    dsimp only [step] at call
    split at call <;> cases call
    exact K.frame rfl rfl rfl rfl
  | tick now =>
    dsimp only [step] at call
    split at call <;> cases call
    exact K.frame rfl rfl rfl rfl
  | timeout k =>
    dsimp only [step] at call
    split at call <;> cases call
    exact K.frame rfl rfl rfl rfl
  | irnTimer k msgSeq seq =>
    dsimp only [step] at call
    obtain ⟨qp, -, call⟩ := bind_ok call
    obtain rfl := Except.ok.inj call
    exact K.frame rfl rfl rfl rfl
  | send k allowed => exact send_conserved K accounted call
  | dataArrives i expired => exact dataArrives_conserved K accounted call
  | ackArrives i => exact ackArrives_conserved K accounted call

/-! ### Runs -/

theorem reachable_conserved (run : Reachable c Accounted s) : s.Conserved := by
  induction run with
  | initial =>
    refine ⟨fun x inside => ?_, fun x inside => ?_, fun d => ?_⟩
    · cases inside
    · cases inside
    · unfold left
      rw [ite_self]
      rfl
  | step _ accounted call ih => exact step_conserved ih accounted call

/-- A quota and the payload and header bytes of the marked packets whose acknowledgement is still to
come are the quota the host was given, so a quota never wraps around, and with nothing in flight it
is what it was. -/
theorem quota_conserved (run : Reachable c Accounted s) :
    (∀ d, s.left d + s.owed d = c.setQuota) ∧
    (s.data = [] → s.acks = [] → ∀ d, s.left d = c.setQuota) := by
  have K := reachable_conserved run
  refine ⟨K.books, fun data acks d => ?_⟩
  have books := K.books d
  unfold owed at books
  rw [data, acks, tally_nil, tally_nil] at books
  exact books

instance decidableAccounted (s : QuotaHost c) : (ev : QuotaEvent c.n) → Decidable (s.Accounted ev)
  | .send _ true =>
      inferInstanceAs (Decidable (∀ r ∈ Except.toOption _, ∀ x ∈ pickNxt _ _, _ → _ ∧ _))
  | .dataArrives _ _ => inferInstanceAs (Decidable (∀ x ∈ _, _ → ∀ r ∈ _, _))
  | .ackArrives _ => inferInstanceAs (Decidable (∀ x ∈ _, _ → _))
  | .send _ false | .add _ _ _ | .tick _ | .timeout _ | .irnTimer _ _ _ => .isTrue trivial

/-- One queue pair whose packets may be reordered, with a quota of 9 packets. -/
def smallQuota : QuotaConfig where
  cfg := Session.smallConfig .disOrder 0
  rtoUs := 0
  enableQpWinBound := true
  msgScheduler := .fifo
  n := 1
  dst := fun _ => 0
  perDst := false
  freeToken := 9
  quotaNum := 1
  header := 50
  packet_lt := by decide

def theQp : Fin smallQuota.n := ⟨0, Nat.one_pos⟩

/-- A message of two packets, whose acknowledgements are delivered from position `i` first. -/
def twoPackets (i : ℕ) : List (QuotaEvent smallQuota.n) :=
  [.add theQp 1 15, .send theQp true, .send theQp true, .dataArrives 0 false, .dataArrives 0 false,
    .ackArrives i, .ackArrives 0]

theorem quota_conserved_two : ∃ s : QuotaHost smallQuota, Reachable smallQuota Accounted s ∧
    (s.pairs theQp).qp.finishedMsgs.length = 1 ∧ (s.pairs theQp).nxtPsn = 15 ∧
      ∀ d, s.left d + s.owed d = smallQuota.setQuota := by
  have ends : (run Accounted {} (twoPackets 0)).toOption.any (fun s : QuotaHost smallQuota =>
      decide ((s.pairs theQp).qp.finishedMsgs.length = 1) &&
        decide ((s.pairs theQp).nxtPsn = 15)) = true := by
    decide +kernel
  obtain ⟨s, ends, shape⟩ := (Option.any_eq_true ..).mp ends
  have reached := reachable_run .initial (toOption_eq_some.mp ends)
  rw [Bool.and_eq_true] at shape
  exact ⟨s, reached, of_decide_eq_true shape.1, of_decide_eq_true shape.2,
    (quota_conserved reached).1⟩

/-- The acknowledgement of the last packet overtakes that of the first, which then comes for a
finished message. -/
theorem quota_lost : ∃ s : QuotaHost smallQuota, Reachable smallQuota (fun _ _ => True) s ∧
    (s.pairs theQp).qp.finishedMsgs.length = 1 ∧ s.data.length = 0 ∧ s.acks.length = 0 ∧
      s.left 0 + 60 = smallQuota.setQuota := by
  have ends : (run (fun _ _ => True) {} (twoPackets 1)).toOption.any
      (fun s : QuotaHost smallQuota =>
      decide ((s.pairs theQp).qp.finishedMsgs.length = 1) && decide (s.data.length = 0) &&
        decide (s.acks.length = 0) && decide (s.left 0 + 60 = smallQuota.setQuota)) = true := by
    decide +kernel
  obtain ⟨s, ends, shape⟩ := (Option.any_eq_true ..).mp ends
  have reached := reachable_run .initial (toOption_eq_some.mp ends)
  rw [Bool.and_eq_true, Bool.and_eq_true, Bool.and_eq_true] at shape
  exact ⟨s, reached, of_decide_eq_true shape.1.1.1, of_decide_eq_true shape.1.1.2,
    of_decide_eq_true shape.1.2, of_decide_eq_true shape.2⟩

end QuotaHost

end Rdma

end Pyrrha

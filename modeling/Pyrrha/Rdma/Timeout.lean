import Pyrrha.Rdma.QueuePair
import Pyrrha.Rdma.WindowLimit

/-!
The retransmission timer of a queue pair against its messages in flight. `ResetMSGRTOTime` looks
only at messages without bytes left to send, and `RecoverMSG` sets no timer for those that have not
timed out.
-/

namespace Pyrrha
open Lib

namespace Rdma

variable {cfg : Config} {q : QpConfig}

/-- The message has packets that are sent and neither acknowledged nor to be sent again. -/
def Unacked (cfg : Config) (m : SndOperation) : Prop :=
  match cfg.mode with
  | .goBackN => m.sndUna < m.sndNxt
  | .disOrder => ∃ psn ∈ m.sentPsn.elems, psn ∉ m.timeoutPsn
  | .irn => SndState.unack ∈ m.irn.states

instance (cfg : Config) (m : SndOperation) : Decidable (Unacked cfg m) := by
  unfold Unacked
  cases cfg.mode <;> infer_instance

/-- The message is in `rdma_msgs_sending`, has packets to send, and its window lets them go. -/
def Sendable (q : QpConfig) (w : ℕ) (m : Message) : Prop :=
  (m.session.snd.admits (m.cfg q) q.enableQpWinBound w).any Prod.snd = true

instance (q : QpConfig) (w : ℕ) (m : Message) : Decidable (Sendable q w m) := by
  unfold Sendable
  infer_instance

/-- The flight of the message fills its window. -/
def Fills (q : QpConfig) (w : ℕ) (m : Message) : Prop :=
  (m.op.getOnTheFly (m.cfg q)).all (isWinBound q.enableQpWinBound w) = true

instance (q : QpConfig) (w : ℕ) (m : Message) : Decidable (Fills q w m) := by
  unfold Fills
  infer_instance

/-- `ShouldSndData` finds the message, with bytes left to send. -/
def Loaded (q : QpConfig) (m : Message) : Prop := (m.session.snd.shouldSndData (m.cfg q)).2 = true

instance (q : QpConfig) (m : Message) : Decidable (Loaded q m) := by
  unfold Loaded
  infer_instance

/-- A message that sends nothing, though it has bytes that `Recover` lets it send. The flight of an
IRN window stays. -/
def Stalled (q : QpConfig) (w : ℕ) (m : Message) : Prop :=
  match q.cfg.mode with
  | .goBackN => m.op.sndUna < m.size ∧ (¬Loaded q m ∨ Fills q w m)
  | .disOrder => (m.op.sentPsn.elems ≠ [] ∨ m.op.sndNxt < m.size) ∧ (¬Loaded q m ∨ Fills q w m)
  | .irn => m.op.sndUna < m.size ∧ ¬Loaded q m ∧ ¬Fills q w m

instance (q : QpConfig) (w : ℕ) (m : Message) : Decidable (Stalled q w m) := by
  unfold Stalled
  cases q.cfg.mode <;> infer_instance

namespace QueuePair

/-- The timer is set for the earliest timeout of a message with unacknowledged bytes, or earlier, or
for now. -/
def Armed (q : QpConfig) (s : QueuePair) : Prop :=
  ∀ m ∈ s.live, Unacked (m.cfg q) m.op → ∃ t ∈ s.eventTimeoutRetransmission, t ≤
    max (m.lastActionTime + q.rto) s.now

/-- What `ResetMSGRTOTime` looks at times out no later than any message with unacknowledged bytes,
or it looks at none and the timer is set already. -/
def Watched (q : QpConfig) (s : QueuePair) : Prop :=
  ∀ m ∈ s.live, Unacked (m.cfg q) m.op →
    (∃ y ∈ s.live, y.inflight q = some true ∧
      (y.lastActionTime ≤ m.lastActionTime ∨ y.due q s.now = true)) ∨
      (∀ y ∈ s.live, y.inflight q = some false) ∧ s.eventTimeoutRetransmission.isSome = true

instance (q : QpConfig) (s : QueuePair) : Decidable (Watched q s) := by
  unfold Watched
  infer_instance

/-- All unacknowledged bytes have timed out, and `Recover` takes them back. -/
def TimedOut (q : QpConfig) (s : QueuePair) : Prop :=
  ∀ m ∈ s.live, Unacked (m.cfg q) m.op → m.due q s.now = true ∧ q.cfg.mode ≠ .irn

instance (q : QpConfig) (s : QueuePair) : Decidable (TimedOut q s) := by
  unfold TimedOut
  infer_instance

/-- When the timer is set anew, the messages are watched; when it fires and no packet is sent at
once, all unacknowledged bytes have timed out. -/
def Covered (q : QpConfig) (s : QueuePair) (ev : QpEvent) : Prop :=
  match ev with
  | .timeout _ => ∀ u ∈ s.acted q ev, if u.2 then Watched q u.1 else TimedOut q s
  | _ => ∀ u ∈ s.acted q ev, u.2 = true → Watched q u.1

instance (q : QpConfig) (s : QueuePair) (ev : QpEvent) : Decidable (Covered q s ev) := by
  cases ev <;> unfold Covered <;> infer_instance

/-- A message of `rdma_msgs_waiting` has timed out, or none of `rdma_msgs_sending` that has is
stalled. -/
def Recalls (q : QpConfig) (s : QueuePair) : Prop :=
  (∃ m ∈ s.live, m.due q s.now = true ∧ m.session.snd.isSending = false) ∨
    ∀ m ∈ s.live, m.due q s.now = true → m.session.snd.isSending = true → ¬Stalled q s.win m

end QueuePair

/-! ### Unacknowledged bytes of one message -/

theorem not_unacked_initial (cfg : Config) : ¬Unacked cfg {} := by
  unfold Unacked
  cases cfg.mode with
  | goBackN => exact Nat.lt_irrefl 0
  | disOrder => exact fun ⟨psn, member, _⟩ => OrderedSet.not_mem_empty psn member
  | irn => exact List.not_mem_nil

theorem not_unacked_recover (mode : cfg.mode ≠ .irn) (m : SndOperation) :
    ¬Unacked cfg (m.recover cfg) := by
  unfold Unacked SndOperation.recover
  cases kind : cfg.mode with
  | goBackN => simp
  | disOrder => exact fun ⟨psn, sent, out⟩ => out sent
  | irn => exact absurd kind mode

theorem mem_dropAcked {p : ℕ} {states : List SndState} {payloads : List ℕ} {base : ℕ}
    {state : SndState}
    (h : state ∈ (SndIrn.dropAcked p states payloads base).1) : state ∈ states := by
  induction states generalizing payloads base with
  | nil => exact h
  | cons first rest ih =>
    cases first with
    | ack => exact List.mem_cons_of_mem _ (ih h)
    | unack => exact h
    | nack => exact h
    | undef => exact h

theorem mem_moveWindow {p : ℕ} {irn : SndIrn} {state : SndState}
    (h : state ∈ (irn.moveWindow p).states) : state ∈ irn.states := mem_dropAcked h

theorem mem_setSeqState {p seq : ℕ} {irn : SndIrn} {state : SndState} (other : state ≠ .unack)
    (h : SndState.unack ∈ (irn.setSeqState p seq state).states) : SndState.unack ∈ irn.states :=
  (List.mem_or_eq_of_mem_set h).resolve_right fun same => other same.symm

theorem unack_sackIrnState {p seq ack : ℕ} {irn : SndIrn}
    (h : SndState.unack ∈ (irn.sackIrnState p seq ack).states) : SndState.unack ∈ irn.states := by
  unfold SndIrn.sackIrnState at h
  have h := mem_moveWindow h
  split at h
  · obtain ⟨i, inside, marked⟩ := List.mem_mapIdx.mp h
    split at marked
    · cases marked
    · exact mem_setSeqState (by decide) (marked ▸ List.getElem_mem inside)
  · exact h

theorem moveToSending_msg {s u : Sender} (h : s.moveToSending = some u) : u.msg = s.msg := by
  unfold Sender.moveToSending at h
  split at h
  · cases h
    rfl
  · split at h
    · cases h
    · cases h
      rfl

/-- An acknowledgement that does not reset the timer puts nothing in flight. -/
theorem unacked_receive {s t : Sender} {ack : AckPacket} (h : s.receive cfg ack = some t)
    (quiet : ack.ackType = .sack ∨ s.finished = true ∨ cfg.mibo = true)
    (active : t.finished = false)
    (unacked : Unacked cfg t.msg) : s.finished = false ∧ Unacked cfg s.msg := by
  have receivedAck : s.receiveAck cfg ack = some t → ack.ackType ≠ .sack → s.finished = false ∧
      Unacked cfg s.msg := by
    intro h other
    unfold Sender.receiveAck at h
    split at h
    · cases h
      exact ⟨active, unacked⟩
    rename_i going
    have mibo := (quiet.resolve_left other).resolve_left going
    rw [if_pos mibo] at h
    split at h
    · cases h
      cases active
    · cases h
  unfold Sender.receive at h
  cases kind : ack.ackType with
  | ack => exact receivedAck (by simpa only [kind] using h) (by simp [kind])
  | nack => exact receivedAck (by simpa only [kind] using h) (by simp [kind])
  | sack =>
    simp only [kind] at h
    unfold Sender.receiveSack at h
    split at h
    · cases h
    rename_i mode
    rw [not_not] at mode
    split at h
    · cases h
      exact ⟨active, unacked⟩
    rename_i going
    split at h
    · split at h
      · cases h
        cases active
      · cases h
    split at h
    · cases h
      exact ⟨active, unacked⟩
    obtain ⟨rtx, -, h⟩ := Option.bind_eq_some_iff.mp h
    obtain ⟨u, moved, h⟩ := Option.bind_eq_some_iff.mp h
    have same : t.msg = u.msg := by
      split at h <;> cases h <;> rfl
    have msg := moveToSending_msg moved
    refine ⟨Bool.eq_false_of_not_eq_true going, ?_⟩
    unfold Unacked at unacked ⊢
    rw [same, msg] at unacked
    simp only [mode] at unacked ⊢
    exact unack_sackIrnState unacked

theorem ackArrives_received {s t : Session} {k : ℕ} {ack : AckPacket} (here : s.acks[k]? = some ack)
    (h : s.step cfg (.ackArrives k) = some t) : s.snd.receive cfg ack = some t.snd := by
  obtain ⟨ack', arrived, h⟩ := Option.bind_eq_some_iff.mp h
  obtain ⟨snd, received, h⟩ := Option.bind_eq_some_iff.mp h
  cases h
  rw [here] at arrived
  cases arrived
  exact received

/-- What neither sends nor acknowledges leaves the message as it was, up to packets found lost. -/
theorem unacked_other {s t : Session} {ev : Event} (h : s.step cfg ev = some t)
    (quiet : (∀ allowed, ev ≠ .send allowed) ∧ (∀ i, ev ≠ .ackArrives i) ∧ ev ≠ .timeout)
    (active : t.snd.finished = false)
    (unacked : Unacked cfg t.snd.msg) : s.snd.finished = false ∧ Unacked cfg s.snd.msg := by
  have move := step_move h
  generalize t.snd = snd at move active unacked
  cases move with
  | held _ => exact absurd rfl (quiet.1 _)
  | sent _ _ => exact absurd rfl (quiet.1 _)
  | recovered => exact absurd rfl quiet.2.2
  | acked _ _ => exact absurd rfl (quiet.2.1 _)
  | kept => exact ⟨active, unacked⟩
  | timer _ =>
    unfold Sender.irnTimerHandler at active unacked
    dsimp only at active unacked
    split at unacked
    · rename_i missing
      rw [if_pos missing] at active
      refine ⟨active, ?_⟩
      unfold Unacked at unacked ⊢
      cases mode : cfg.mode with
      | goBackN => simpa only [mode] using unacked
      | disOrder => simpa only [mode] using unacked
      | irn =>
        simp only [mode] at unacked ⊢
        exact mem_setSeqState (by decide) unacked
    · rename_i missing
      rw [if_neg missing] at active
      exact ⟨active, unacked⟩

theorem shouldSndData_states (cfg : Config) (s : Sender) : (s.shouldSndData cfg).1.finished =
    s.finished ∧
    (s.shouldSndData cfg).1.msg.irn.states = s.msg.irn.states := by
  unfold Sender.shouldSndData
  split
  · exact ⟨rfl, rfl⟩
  split
  · dsimp only
    split <;> exact ⟨rfl, rfl⟩
  · exact ⟨rfl, rfl⟩

theorem unacked_held {s : Sender} (active : (s.shouldSndData cfg).1.finished = false)
    (unacked : Unacked cfg (s.shouldSndData cfg).1.msg) : s.finished = false ∧
    Unacked cfg s.msg := by
  obtain ⟨finished, states⟩ := shouldSndData_states cfg s
  refine ⟨finished ▸ active, ?_⟩
  cases mode : cfg.mode with
  | goBackN => rwa [shouldSndData_plain (by simp [mode])] at unacked
  | disOrder => rwa [shouldSndData_plain (by simp [mode])] at unacked
  | irn =>
    unfold Unacked at unacked ⊢
    simp only [mode] at unacked ⊢
    rwa [states] at unacked

/-! ### What a recovery lets a message send -/

theorem shouldSndData_onTheFly (cfg : Config) (s : Sender) :
    (s.shouldSndData cfg).1.msg.getOnTheFly cfg = s.msg.getOnTheFly cfg := by
  cases mode : cfg.mode with
  | goBackN => rw [shouldSndData_plain (by simp [mode])]
  | disOrder => rw [shouldSndData_plain (by simp [mode])]
  | irn =>
    unfold Sender.shouldSndData
    split
    · rfl
    · dsimp only
      split <;> simp only [SndOperation.getOnTheFly, mode] <;> rfl

/-- A message can be sent when it has bytes left and its flight does not fill the window. -/
theorem sendable_iff {w : ℕ} {m : Message} : Sendable q w m ↔ Loaded q m ∧ ¬Fills q w m := by
  have flight := shouldSndData_onTheFly (m.cfg q) m.session.snd
  unfold Sendable Loaded Fills Sender.admits
  generalize m.session.snd.shouldSndData (m.cfg q) = asked at flight ⊢
  obtain ⟨s, ready⟩ := asked
  cases ready with
  | false => simp
  | true =>
    simp only [flight, Message.op]
    cases m.session.snd.msg.getOnTheFly (m.cfg q) <;> simp

theorem shouldSndData_plain_iff {s : Sender} (mode : cfg.mode ≠ .irn) (sending : s.isSending = true)
    (active : s.finished = false) : (s.shouldSndData cfg).2 = true ↔
    0 < s.msg.getBytesLeft cfg := by
  unfold Sender.shouldSndData Sender.peek
  simp only [mode, sending, active, if_false, decide_false, Bool.false_and, Bool.or_false,
    Bool.not_false, Bool.true_and]
  by_cases left : 0 < s.msg.getBytesLeft cfg
  · simp [left]
  · simp [left]

theorem shouldSndData_irn_iff {s : Sender} (mode : cfg.mode = .irn) (sending : s.isSending = true)
    (active : s.finished = false) : (s.shouldSndData cfg).2 = true ↔
      s.msg.sndNxt < cfg.size ∨ s.msg.irn.rtxSeqQueues.filter (s.msg.irn.isMissing cfg.mtu) ≠
        [] := by
  have other : Mode.irn ≠ .disOrder := by decide
  unfold Sender.shouldSndData Sender.peek
  simp only [mode, sending, active, SndOperation.getBytesLeft, other, false_and, if_false, if_true,
    decide_true, Bool.not_false, Bool.true_and]
  generalize missing : s.msg.irn.rtxSeqQueues.filter (s.msg.irn.isMissing cfg.mtu) = rtx
  have none_missing : s.msg.irn.rtxSeqQueues = [] → rtx = [] := by
    rintro empty
    rw [← missing, empty, List.filter_nil]
  split
  · rename_i idle
    simp only [Bool.not_or, Bool.and_eq_true, Bool.not_eq_true', decide_eq_false_iff_not,
      bne_eq_false_iff_eq] at idle
    have sent : ¬s.msg.sndNxt < cfg.size := by omega
    simp [sent, none_missing idle.2]
  · split
    · rename_i idle
      have sent : ¬s.msg.sndNxt < cfg.size := by omega
      simp [sent, idle.2]
    · rename_i left
      have some_left : s.msg.sndNxt < cfg.size ∨ rtx ≠ [] := by
        by_contra none
        rw [not_or, not_not] at none
        exact left ⟨by simp [none.2]; omega, none.2⟩
      simp [some_left]

theorem getBytesLeft_recover (m : SndOperation) (mode : cfg.mode ≠ .irn) :
    0 < (m.recover cfg).getBytesLeft cfg ↔
    if cfg.mode = .disOrder then m.sentPsn.elems ≠ [] ∨ m.sndNxt < cfg.size
      else m.sndUna < cfg.size := by
  unfold SndOperation.getBytesLeft SndOperation.recover
  rw [if_neg mode]
  by_cases disOrder : cfg.mode = .disOrder
  · have mtu := cfg.mtu_pos
    simp only [disOrder, true_and, if_true]
    by_cases sent : m.sentPsn.elems = []
    · simp only [sent, ne_eq, not_true_eq_false, if_false, false_or]
      exact Nat.sub_pos_iff_lt
    · have many : 0 < m.sentPsn.elems.length := List.length_pos_iff.mpr sent
      simp only [ne_eq, sent, not_false_iff, if_true, true_or, iff_true]
      split
      · rename_i rest
        split <;> omega
      · exact Nat.mul_pos many mtu
  · simp only [disOrder, false_and, if_false]
    exact Nat.sub_pos_iff_lt

theorem getOnTheFly_recover (m : SndOperation) (mode : cfg.mode ≠ .irn) :
    (m.recover cfg).getOnTheFly cfg = some 0 := by
  unfold SndOperation.getOnTheFly SndOperation.recover
  cases kind : cfg.mode with
  | goBackN => simp
  | disOrder => simp
  | irn => exact absurd kind mode

theorem not_isWinBound_zero (enableQpWinBound : Bool) (w : ℕ) :
    isWinBound enableQpWinBound w 0 = false := by
  unfold isWinBound
  by_cases none : w = 0 <;> simp [none]

theorem recoverMSG_due {now : ℕ} {m : Message} (due : m.due q now = true)
    (active : m.session.snd.finished = false) :
    (m.recoverMSG q now).cfg q = m.cfg q ∧ (m.recoverMSG q now).op = m.op.recover (m.cfg q) ∧
      (m.recoverMSG q now).session.snd.isSending = true ∧
      (m.recoverMSG q now).session.snd.finished = false := by
  have back : m.session.snd.recoverMSG (m.cfg q) =
      { m.session.snd with msg := m.op.recover (m.cfg q), isSending := true } := by
    rw [Sender.recoverMSG, if_neg (by simp [active])]
    rfl
  rw [Message.recoverMSG, if_pos due]
  refine ⟨rfl, ?_, ?_, ?_⟩
  · rw [Message.op, back]
  · rw [back]
  · rw [back]
    exact active

/-- Without IRN nothing is in flight any more after `RecoverMSG`. -/
theorem stalled_plain {w : ℕ} {m m' : Message} {regains : Prop} (mode : q.cfg.mode ≠ .irn)
    (size : m'.cfg q = m.cfg q) (op : m'.op = m.op.recover (m.cfg q))
    (sending : m'.session.snd.isSending = true) (active : m'.session.snd.finished = false)
    (left : 0 < (m.op.recover (m.cfg q)).getBytesLeft (m.cfg q) ↔ regains) :
    regains ∧ (¬Loaded q m ∨ Fills q w m) ↔
      ¬(Loaded q m ∧ ¬Fills q w m) ∧ Loaded q m' ∧ ¬Fills q w m' := by
  have flight : (m.op.recover (m.cfg q)).getOnTheFly (m.cfg q) = some 0 :=
    getOnTheFly_recover m.op mode
  have empty : ¬Fills q w m' := by
    unfold Fills
    rw [size, op, flight]
    simp [not_isWinBound_zero]
  have loaded : Loaded q m' ↔ regains := by
    rw [← left, ← op, ← size]
    exact shouldSndData_plain_iff (size ▸ mode) sending active
  rw [loaded]
  constructor
  · rintro ⟨some_left, idle | full⟩
    · exact ⟨fun both => idle both.1, some_left, empty⟩
    · exact ⟨fun both => both.2 full, some_left, empty⟩
  · rintro ⟨held, some_left, -⟩
    refine ⟨some_left, ?_⟩
    by_cases ready : Loaded q m
    · exact .inr (not_not.mp fun free => held ⟨ready, free⟩)
    · exact .inl ready

/-- With IRN the flight stays as it is, and `RecoverMSG` takes `snd_nxt` back. -/
theorem stalled_irn {w : ℕ} {m m' : Message} (irn : (m.cfg q).mode = .irn) (size : m'.cfg q = m.cfg q)
    (op : m'.op = m.op.recover (m.cfg q)) (sending : m.session.snd.isSending = true)
    (active : m.session.snd.finished = false) (sending' : m'.session.snd.isSending = true)
    (active' : m'.session.snd.finished = false) :
    m.op.sndUna < m.size ∧ ¬Loaded q m ∧ ¬Fills q w m ↔
      ¬(Loaded q m ∧ ¬Fills q w m) ∧ Loaded q m' ∧ ¬Fills q w m' := by
  have same : m'.op.irn = m.op.irn := by
    rw [op]
    rfl
  have back : m'.op.sndNxt = m.op.sndUna := by
    rw [op]
    exact if_neg (by simp [irn])
  have flight : Fills q w m' ↔ Fills q w m := by
    unfold Fills SndOperation.getOnTheFly
    rw [size, irn]
    simp only [same]
  have before : Loaded q m ↔ m.op.sndNxt < m.size ∨
      m.op.irn.rtxSeqQueues.filter (m.op.irn.isMissing q.cfg.mtu) ≠ [] :=
    shouldSndData_irn_iff irn sending active
  have after : Loaded q m' ↔ m.op.sndUna < m.size ∨
      m.op.irn.rtxSeqQueues.filter (m.op.irn.isMissing q.cfg.mtu) ≠ [] := by
    unfold Loaded
    rw [size, shouldSndData_irn_iff irn sending' active', ← back, ← same]
    rfl
  rw [flight, after]
  constructor
  · rintro ⟨left, idle, free⟩
    exact ⟨fun both => idle both.1, .inl left, free⟩
  · rintro ⟨held, left, free⟩
    have idle : ¬Loaded q m := fun loaded => held ⟨loaded, free⟩
    exact ⟨left.resolve_right fun rtx => idle (before.mpr (.inr rtx)), idle, free⟩

/-- A timed-out message of `rdma_msgs_sending` is stalled when `RecoverMSG` lets it be sent
again. -/
theorem stalled_iff {w now : ℕ} {m : Message} (due : m.due q now = true)
    (sending : m.session.snd.isSending = true) (active : m.session.snd.finished = false) :
    Stalled q w m ↔ ¬Sendable q w m ∧ Sendable q w (m.recoverMSG q now) := by
  obtain ⟨size, op, sending', active'⟩ := recoverMSG_due due active
  rw [sendable_iff, sendable_iff]
  generalize m.recoverMSG q now = m' at size op sending' active'
  unfold Stalled
  cases mode : q.cfg.mode with
  | goBackN =>
    have left := getBytesLeft_recover m.op (show (m.cfg q).mode ≠ .irn by simp [Message.cfg, mode])
    rw [if_neg (by simp [Message.cfg, mode])] at left
    exact stalled_plain (by simp [mode]) size op sending' active' left
  | disOrder =>
    have left := getBytesLeft_recover m.op (show (m.cfg q).mode ≠ .irn by simp [Message.cfg, mode])
    rw [if_pos (by simp [Message.cfg, mode])] at left
    exact stalled_plain (by simp [mode]) size op sending' active' left
  | irn => exact stalled_irn mode size op sending active sending' active'

/-! ### The timer -/

namespace QueuePair

variable {s t : QueuePair}

/-- The clock is not behind the last actions, and the timer not set beyond a whole timeout. -/
structure Timely (q : QpConfig) (s : QueuePair) : Prop where
  last : ∀ m ∈ s.msgs, m.lastActionTime ≤ s.now
  event : ∀ t ∈ s.eventTimeoutRetransmission, t ≤ s.now + q.rto

theorem allInflightMsgs_some {msgs l : List Message} (h : allInflightMsgs q msgs = some l) :
    (∀ m ∈ msgs, ∃ b, m.inflight q = some b) ∧ ∀ m, m ∈ l ↔ m ∈ msgs ∧
    m.inflight q = some true := by
  induction msgs generalizing l with
  | nil =>
    cases h
    simp
  | cons curr rest ih =>
    obtain ⟨pushed, first, h⟩ := Option.bind_eq_some_iff.mp h
    obtain ⟨msgs, later, h⟩ := Option.bind_eq_some_iff.mp h
    obtain ⟨all, mem⟩ := ih later
    refine ⟨fun m member => ?_, fun m => ?_⟩
    · rcases List.mem_cons.mp member with rfl | member
      · exact ⟨pushed, first⟩
      · exact all m member
    · cases pushed with
      | true =>
        cases h
        simp only [if_true, List.mem_cons, mem]
        constructor
        · rintro (rfl | both)
          · exact ⟨.inl rfl, first⟩
          · exact ⟨.inr both.1, both.2⟩
        · rintro ⟨rfl | member, seen⟩
          · exact .inl rfl
          · exact .inr ⟨member, seen⟩
      | false =>
        cases h
        simp only [Bool.false_eq_true, if_false, List.mem_cons, mem]
        constructor
        · exact fun both => ⟨.inr both.1, both.2⟩
        · rintro ⟨rfl | member, seen⟩
          · rw [first] at seen
            cases seen
          · exact ⟨member, seen⟩

/-- `ResetMSGRTOTime` looks at no message and does nothing, or sets the timer for the earliest it
looks at. -/
theorem resetMSGRTOTime_cases (h : s.resetMSGRTOTime q = some t) :
    (∀ y ∈ s.live, y.inflight q = some false) ∧ t = s ∨
      ∃ y ∈ s.live, y.inflight q = some true ∧
        (∀ z ∈ s.live, z.inflight q = some true → y.lastActionTime ≤ z.lastActionTime) ∧
        t = s.resetRTOEvent (y.lastActionTime + q.rto) := by
  obtain ⟨msgs, looked, h⟩ := Option.bind_eq_some_iff.mp h
  obtain ⟨all, mem⟩ := allInflightMsgs_some looked
  cases least : (msgs.map Message.lastActionTime).min? with
  | none =>
    rw [least] at h
    cases h
    have empty : msgs = [] := by simpa using least
    refine .inl ⟨fun y member => ?_, rfl⟩
    obtain ⟨b, seen⟩ := all y member
    cases b with
    | false => exact seen
    | true =>
      have := (mem y).mpr ⟨member, seen⟩
      rw [empty] at this
      cases this
  | some earliest =>
    rw [least] at h
    cases h
    obtain ⟨member, le⟩ := List.min?_eq_some_iff.mp least
    obtain ⟨y, inside, rfl⟩ := List.mem_map.mp member
    obtain ⟨member, seen⟩ := (mem y).mp inside
    exact .inr ⟨y, member, seen, fun z member seen =>
      le _ (List.mem_map_of_mem ((mem z).mpr ⟨member, seen⟩)), rfl⟩

theorem armed_reset (timely : Timely q s) (watched : Watched q s)
    (others : s.eventTimeoutRetransmission.isSome = true → ∀ m ∈ s.live, Unacked (m.cfg q) m.op →
      m.lastActionTime = s.now ∨ ∃ t ∈ s.eventTimeoutRetransmission, t ≤
        max (m.lastActionTime + q.rto) s.now)
    (h : s.resetMSGRTOTime q = some t) : Armed q t ∧ Timely q t := by
  rcases resetMSGRTOTime_cases h with ⟨none, rfl⟩ | ⟨y, member, seen, least, rfl⟩
  · refine ⟨fun m live unacked => ?_, timely⟩
    rcases watched m live unacked with ⟨y, member, seen, _⟩ | ⟨_, set⟩
    · rw [none y member] at seen
      cases seen
    · rcases others set m live unacked with now | pending
      · obtain ⟨e, set⟩ := Option.isSome_iff_exists.mp set
        have le := timely.event e set
        exact ⟨e, set, by rw [now]; exact le.trans (le_max_left _ _)⟩
      · exact pending
  · refine ⟨fun m live unacked => ⟨_, rfl, ?_⟩, timely.last, fun e set => ?_⟩
    · show max (y.lastActionTime + q.rto) s.now ≤ max (m.lastActionTime + q.rto) s.now
      rcases watched m live unacked with ⟨z, inside, looked, early⟩ | ⟨none, _⟩
      · have le := least z inside looked
        rcases early with before | due
        · omega
        · have := of_decide_eq_true due
          omega
      · rw [none y member] at seen
        cases seen
    · cases set
      have := timely.last y (List.mem_of_mem_filter member)
      show max (y.lastActionTime + q.rto) s.now ≤ s.now + q.rto
      omega

theorem mem_live {m : Message} : m ∈ s.live ↔ m ∈ s.msgs ∧ m.session.snd.finished = false := by
  simp [live]

theorem mem_live_put {k : ℕ} {m x : Message} (h : x ∈ (s.put k m).live) :
    x ∈ s.live ∨ x = m ∧ m.session.snd.finished = false := by
  obtain ⟨member, active⟩ := mem_live.mp h
  rcases List.mem_or_eq_of_mem_set member with old | rfl
  · exact .inl (mem_live.mpr ⟨old, active⟩)
  · exact .inr ⟨rfl, active⟩

theorem event_put {k : ℕ} {m x : Message} (h : x ∈ (s.put k m).live) :
    (s.put k m).eventTimeoutRetransmission = s.eventTimeoutRetransmission := by
  have some_live : ({ s with msgs := s.msgs.set k m } : QueuePair).live.isEmpty = false := by
    cases empty : ({ s with msgs := s.msgs.set k m } : QueuePair).live.isEmpty with
    | false => rfl
    | true =>
      have none : ({ s with msgs := s.msgs.set k m } : QueuePair).live = [] :=
        List.isEmpty_iff.mp empty
      have there : x ∈ ({ s with msgs := s.msgs.set k m } : QueuePair).live := h
      rw [none] at there
      cases there
  unfold put
  dsimp only
  rw [some_live, Bool.and_false]
  rfl

theorem timely_put {k : ℕ} {m : Message} (timely : Timely q s) (last : m.lastActionTime ≤ s.now) :
    Timely q (s.put k m) := by
  refine ⟨fun x member => ?_, fun e set => timely.event e ?_⟩
  · rcases List.mem_or_eq_of_mem_set member with old | rfl
    · exact timely.last x old
    · exact last
  · unfold put at set
    dsimp only at set
    split at set
    · cases set
    · exact set

theorem armed_put {k : ℕ} {m m' : Message} (armed : Armed q s) (here : s.msgs[k]? = some m)
    (size : m'.cfg q = m.cfg q) (same : m'.lastActionTime = m.lastActionTime)
    (less : m'.session.snd.finished = false → Unacked (m.cfg q) m'.op →
      m.session.snd.finished = false ∧ Unacked (m.cfg q) m.op) : Armed q (s.put k m') := by
  intro x live unacked
  rw [event_put live]
  rcases mem_live_put live with old | ⟨rfl, active⟩
  · exact armed x old unacked
  · rw [size] at unacked
    obtain ⟨active, unacked⟩ := less active unacked
    rw [same]
    exact armed m (mem_live.mpr ⟨List.mem_of_getElem? here, active⟩) unacked

/-- One message is replaced: by one that has acted now, if the timer is to be set anew, and else by
one that has no more unacknowledged bytes than before. -/
def Replaces (q : QpConfig) (s u : QueuePair) (resets : Bool) : Prop :=
  ∃ k m m', s.msgs[k]? = some m ∧ u = s.put k m' ∧ m'.cfg q = m.cfg q ∧
    (resets = true → m'.lastActionTime = s.now) ∧
    (resets = false → m'.lastActionTime = m.lastActionTime ∧ (m'.session.snd.finished = false →
      Unacked (m.cfg q) m'.op → m.session.snd.finished = false ∧ Unacked (m.cfg q) m.op))

theorem getNxtPacket_replaces {u : QueuePair} {k : ℕ} {allowed resets : Bool} (rto : 0 < q.rtoUs)
    (h : s.getNxtPacket q k allowed = some (u, resets)) : Replaces q s u resets := by
  have on : decide (q.rtoUs ≠ 0) = true := decide_eq_true (by omega)
  obtain ⟨m, here, h⟩ := Option.bind_eq_some_iff.mp h
  obtain ⟨free, _, h⟩ := Option.bind_eq_some_iff.mp h
  obtain ⟨session, sent, h⟩ := Option.bind_eq_some_iff.mp h
  cases h
  refine ⟨k, m, _, here, rfl, rfl, fun resets => if_pos resets,
    fun quiet => ⟨?_, fun active unacked => ?_⟩⟩
  · exact if_neg (by rw [quiet]; decide)
  · rw [on, Bool.and_true] at quiet
    rcases send_cases sent with ⟨_, rfl⟩ | ⟨goes, v, snd, pkt, ready, _⟩
    · exact unacked_held active unacked
    · rw [ready, goes] at quiet
      cases quiet

theorem ackArrives_replaces {u : QueuePair} {k i : ℕ} {resets : Bool} (rto : 0 < q.rtoUs)
    (h : s.acted q (.ackArrives k i) = some (u, resets)) : Replaces q s u resets := by
  have on : decide (q.rtoUs ≠ 0) = true := decide_eq_true (by omega)
  obtain ⟨m, here, h⟩ := Option.bind_eq_some_iff.mp h
  obtain ⟨ack, arrived, h⟩ := Option.bind_eq_some_iff.mp h
  obtain ⟨session, taken, h⟩ := Option.bind_eq_some_iff.mp h
  cases h
  refine ⟨k, m, _, here, rfl, rfl, fun resets => if_pos resets,
    fun quiet => ⟨?_, fun active unacked => ?_⟩⟩
  · exact if_neg (by rw [quiet]; decide)
  · rw [on, Bool.and_true] at quiet
    refine unacked_receive (ackArrives_received arrived taken) ?_ active unacked
    show ack.ackType = .sack ∨ m.session.snd.finished = true ∨ q.cfg.mibo = true
    by_cases sack : ack.ackType = .sack
    · exact .inl sack
    · right
      rw [decide_eq_true sack] at quiet
      cases done : m.session.snd.finished with
      | true => exact .inl rfl
      | false =>
        rw [done] at quiet
        cases once : q.cfg.mibo with
        | true => exact .inr rfl
        | false =>
          rw [once] at quiet
          cases quiet

/-- The timer is set anew after a message was replaced. `armed` is needed only where it was
pending. -/
theorem armed_replaces {u : QueuePair} (timely : Timely q s) (replaces : Replaces q s u true)
    (armed : s.eventTimeoutRetransmission.isSome = true → Armed q s) (watched : Watched q u)
    (h : u.resetMSGRTOTime q = some t) : Armed q t ∧ Timely q t := by
  obtain ⟨k, m, m', here, rfl, size, now, -⟩ := replaces
  have timely' := @timely_put q s k m' timely (now rfl).le
  refine armed_reset timely' watched (fun set x live unacked => ?_) h
  rw [event_put live] at set ⊢
  rcases mem_live_put live with old | ⟨rfl, _⟩
  · exact .inr (armed set x old unacked)
  · exact .inl (now rfl)

theorem armed_kept {u : QueuePair} (timely : Timely q s) (replaces : Replaces q s u false)
    (armed : Armed q s) : Armed q u ∧ Timely q u := by
  obtain ⟨k, m, m', here, rfl, size, -, kept⟩ := replaces
  obtain ⟨same, less⟩ := kept rfl
  exact ⟨armed_put armed here size same less,
    timely_put timely (same ▸ timely.last m (List.mem_of_getElem? here))⟩

theorem armed_acted {u : QueuePair} {resets : Bool} (timely : Timely q s) (armed : Armed q s)
    (watched : resets = true → Watched q u) (replaces : Replaces q s u resets)
    (h : (if resets then u.resetMSGRTOTime q else some u) = some t) : Armed q t ∧ Timely q t := by
  cases resets with
  | true => exact armed_replaces timely replaces (fun _ => armed) (watched rfl) h
  | false =>
    cases h
    exact armed_kept timely replaces armed

theorem armed_recover (out : TimedOut q s) : Armed q (s.recoverMSG q).1 := by
  intro m live unacked
  obtain ⟨member, active⟩ := mem_live.mp live
  obtain ⟨old, inside, rfl⟩ := List.mem_map.mp member
  exfalso
  unfold Message.recoverMSG at active unacked
  split at unacked
  · rename_i due
    rw [if_pos due] at active
    have going : old.session.snd.finished = false := by
      unfold Sender.recoverMSG at active
      split at active
      · exact active
      · exact active
    have back : (old.session.snd.recoverMSG (old.cfg q)).msg = old.op.recover (old.cfg q) := by
      unfold Sender.recoverMSG
      rw [if_neg (by simp [going])]
      rfl
    have some_unacked : Unacked (old.cfg q) (old.op.recover (old.cfg q)) := back ▸ unacked
    cases mode : q.cfg.mode with
    | goBackN => exact not_unacked_recover (by simp [Message.cfg, mode]) _ some_unacked
    | disOrder => exact not_unacked_recover (by simp [Message.cfg, mode]) _ some_unacked
    | irn =>
      have before : Unacked (old.cfg q) old.op := by
        unfold Unacked at some_unacked ⊢
        simp only [Message.cfg, mode] at some_unacked ⊢
        exact some_unacked
      exact (out old (mem_live.mpr ⟨inside, going⟩) before).2 mode
  · rename_i early
    rw [if_neg early] at active
    exact early (out old (mem_live.mpr ⟨inside, active⟩) unacked).1

theorem timely_recover (timely : Timely q s) : Timely q (s.recoverMSG q).1 := by
  refine ⟨fun m member => ?_, nofun⟩
  obtain ⟨old, inside, rfl⟩ := List.mem_map.mp member
  have last := timely.last old inside
  unfold Message.recoverMSG
  split <;> exact last

theorem armed_timeout {sent : Option (ℕ × Bool)} (rto : 0 < q.rtoUs) (timely : Timely q s)
    (covered : Covered q s (.timeout sent)) (h : s.step q (.timeout sent) = some t) : Armed q t ∧
    Timely q t := by
  obtain ⟨⟨u, resets⟩, acted, h⟩ := Option.bind_eq_some_iff.mp h
  have safe := covered _ acted
  have timely' := timely_recover timely
  cases sent with
  | none =>
    simp only [QueuePair.acted] at acted
    split at acted
    · cases acted
      cases h
      exact ⟨armed_recover safe, timely'⟩
    · cases acted
  | some call =>
    simp only [QueuePair.acted] at acted
    split at acted
    · have replaces := getNxtPacket_replaces rto acted
      cases resets with
      | true => exact armed_replaces timely' replaces nofun safe h
      | false =>
        cases h
        exact armed_kept timely' replaces (armed_recover safe)
    · cases acted

theorem armed_step {ev : QpEvent} (rto : 0 < q.rtoUs) (timely : Timely q s) (armed : Armed q s)
    (covered : Covered q s ev) (h : s.step q ev = some t) : Armed q t ∧ Timely q t := by
  cases ev with
  | add size =>
    simp only [step] at h
    split at h
    · rename_i size_lt
      cases h
      refine ⟨fun m live unacked => ?_, fun m member => ?_, timely.event⟩
      · obtain ⟨member, active⟩ := mem_live.mp live
        rcases List.mem_append.mp member with old | new
        · exact armed m (mem_live.mpr ⟨old, active⟩) unacked
        · rw [List.mem_singleton.mp new] at unacked
          exact absurd unacked (not_unacked_initial _)
      · rcases List.mem_append.mp member with old | new
        · exact timely.last m old
        · rw [List.mem_singleton.mp new]
    · cases h
  | tick now =>
    simp only [step] at h
    split at h
    · rename_i later
      cases h
      refine ⟨fun m live unacked => ?_, fun m member => (timely.last m member).trans later.1,
        fun e set => ?_⟩
      · obtain ⟨e, set, le⟩ := armed m live unacked
        exact ⟨e, set, le.trans (max_le_max_left _ later.1)⟩
      · exact (timely.event e set).trans (Nat.add_le_add_right later.1 _)
    · cases h
  | setWin w =>
    cases h
    exact ⟨armed, timely.last, timely.event⟩
  | other k ev =>
    have moved : ∀ session, (∃ m, s.msgs[k]? = some m ∧ m.session.step (m.cfg q) ev = some session ∧
        t = s.put k { m with session := session }) → (∀ allowed, ev ≠ .send allowed) ∧
          (∀ i, ev ≠ .ackArrives i) ∧
        ev ≠ .timeout → Armed q t ∧ Timely q t := by
      rintro session ⟨m, here, stepped, rfl⟩ quiet
      exact ⟨armed_put armed here rfl rfl fun active unacked =>
        unacked_other stepped quiet active unacked,
        timely_put timely (timely.last m (List.mem_of_getElem? here))⟩
    simp only [step] at h
    split at h
    · cases h
    · cases h
    · cases h
    · rename_i notSend notAck notTimeout
      obtain ⟨m, here, h⟩ := Option.bind_eq_some_iff.mp h
      obtain ⟨session, stepped, h⟩ := Option.bind_eq_some_iff.mp h
      cases h
      exact moved session ⟨m, here, stepped, rfl⟩ ⟨notSend, notAck, notTimeout⟩
  | send k allowed =>
    obtain ⟨⟨u, resets⟩, acted, h⟩ := Option.bind_eq_some_iff.mp h
    exact armed_acted timely armed (fun on => covered _ acted on)
      (getNxtPacket_replaces rto acted) h
  | ackArrives k i =>
    obtain ⟨⟨u, resets⟩, acted, h⟩ := Option.bind_eq_some_iff.mp h
    exact armed_acted timely armed (fun on => covered _ acted on) (ackArrives_replaces rto acted) h
  | timeout sent => exact armed_timeout rto timely covered h

theorem armed_reachable (rto : 0 < q.rtoUs) (reach : Reachable q (Covered q) s) : Armed q s ∧
    Timely q s := by
  induction reach with
  | initial w => exact ⟨fun m live => absurd (mem_live.mp live).1 List.not_mem_nil,
      fun m member => absurd member List.not_mem_nil, nofun⟩
  | step _ covered h before => exact armed_step rto before.2 before.1 covered h

/-- In go-back-N the timer looks at every message that has unacknowledged bytes and none left to
send. -/
theorem inflight_goBackN {m : Message} (mode : q.cfg.mode = .goBackN) (nxt : m.op.sndNxt < 2 ^ 64)
    (sent : m.op.getBytesLeft (m.cfg q) = 0) (unacked : Unacked (m.cfg q) m.op) :
    m.inflight q = some true := by
  have lt : m.op.sndUna < m.op.sndNxt := by
    unfold Unacked at unacked
    simpa only [Message.cfg, mode] using unacked
  have bytes : (m.op.sndNxt + 2 ^ 64 - m.op.sndUna) % 2 ^ 64 ≠ 0 := by omega
  unfold Message.inflight
  rw [if_neg (by simp [sent])]
  unfold SndOperation.getOnTheFly
  simp only [Message.cfg, mode, Option.map_some, decide_eq_true bytes]

/-- `RecoverMSG` triggers the NIC for all messages it lets be sent again exactly when it brings one
back from `rdma_msgs_waiting`, or none that is stalled. -/
theorem recoverMSG_triggers (q : QpConfig) (s : QueuePair) :
    (∀ m ∈ s.msgs, ¬Sendable q s.win m → Sendable q s.win (m.recoverMSG q s.now) →
      (s.recoverMSG q).2 = true) ↔ Recalls q s := by
  have called : (s.recoverMSG q).2 = true ↔ ∃ m ∈ s.live, m.due q s.now = true ∧
      m.session.snd.isSending = false := by
    simp [recoverMSG, List.any_eq_true]
  rw [called]
  constructor
  · intro triggers
    by_cases brought : ∃ m ∈ s.live, m.due q s.now = true ∧ m.session.snd.isSending = false
    · exact .inl brought
    · refine .inr fun m live due sending stalled => brought ?_
      obtain ⟨member, active⟩ := mem_live.mp live
      obtain ⟨held, freed⟩ := (stalled_iff due sending active).mp stalled
      exact triggers m member held freed
  · rintro (brought | free) m member held freed
    · exact brought
    · have due : m.due q s.now = true := by
        by_contra early
        rw [Message.recoverMSG, if_neg early] at freed
        exact held freed
      have active : m.session.snd.finished = false := by
        cases done : m.session.snd.finished with
        | false => rfl
        | true =>
          rw [Message.recoverMSG, if_pos due, Sender.recoverMSG, if_pos done] at freed
          exact absurd freed held
      have live : m ∈ s.live := mem_live.mpr ⟨member, active⟩
      cases sending : m.session.snd.isSending with
      | false => exact ⟨m, live, due, sending⟩
      | true => exact absurd ((stalled_iff due sending active).mpr
          ⟨held, freed⟩) (free m live due sending)

/-- In a run in which the messages are watched whenever the timer is set anew, and all have timed
out when it fires and nothing is sent at once, the timer is pending for the unacknowledged bytes.
`RecoverMSG` triggers the NIC for what it lets be sent again exactly when no message is stalled for
good. -/
theorem timer_pending (rto : 0 < q.rtoUs) (s : QueuePair) :
    (Reachable q (Covered q) s → Armed q s) ∧
    ((∀ m ∈ s.msgs, ¬Sendable q s.win m → Sendable q s.win (m.recoverMSG q s.now) →
      (s.recoverMSG q).2 = true) ↔ Recalls q s) :=
  ⟨fun reach => (armed_reachable rto reach).1, recoverMSG_triggers q s⟩

end QueuePair

def smallQp : QpConfig := ⟨Session.smallConfig .goBackN 0, 1, true⟩

/-- Two messages of one packet each lose it, one after the other. When the timer fires for the
first, it is sent again at once. -/
def lostInTurn : List QpEvent :=
  [.add 10, .send 0 true, .other 0 (.loseData 0), .tick 500, .add 10, .send 1 true,
    .other 1 (.loseData 0), .tick 1000, .timeout (some (0, true)), .tick 1500]

theorem timer_pending_again : ∃ s, QueuePair.Reachable smallQp (QueuePair.Covered smallQp) s ∧
    s.eventTimeoutRetransmission = some 1500 ∧
    (∃ m ∈ s.live, Unacked (m.cfg smallQp) m.op ∧ m.due smallQp s.now = false) ∧
    QueuePair.Armed smallQp s ∧ (s.recoverMSG smallQp).2 = true := by
  have ends : ∃ s, QueuePair.run smallQp (QueuePair.Covered smallQp) {} lostInTurn = some s ∧
      s.eventTimeoutRetransmission = some 1500 ∧
      (∃ m ∈ s.live, Unacked (m.cfg smallQp) m.op ∧ m.due smallQp s.now = false) ∧
      (∃ m ∈ s.live, m.due smallQp s.now = true ∧ m.session.snd.isSending = false) ∧
      ∃ m ∈ s.msgs, ¬Sendable smallQp s.win m ∧
        Sendable smallQp s.win (m.recoverMSG smallQp s.now) := by
    refine ⟨_, rfl, ?_⟩
    decide
  obtain ⟨s, ends, set, early, brought, m, member, held, free⟩ := ends
  have reach := QueuePair.reachable_run (.initial 0) ends
  have pending := QueuePair.timer_pending (show 0 < smallQp.rtoUs by decide) s
  exact ⟨s, reach, set, early, pending.1 reach, pending.2.mpr (.inl brought) m member held free⟩

/-- Two of three packets fill the window, and are lost. -/
def lostFlight : List QpEvent :=
  [.add 25, .send 0 true, .send 0 true, .other 0 (.loseData 0), .other 0 (.loseData 0)]

/-- A message of one packet sets the timer, and is acknowledged while another message loses its
flight. -/
def lostBeside : List QpEvent :=
  [.add 10, .add 25, .send 0 true, .send 1 true, .send 1 true, .other 1 (.loseData 0),
    .other 1 (.loseData 0), .other 0 (.dataArrives 0 false), .ackArrives 0 0, .tick 1000]

/-- The packets of two messages are lost one after the other, and the link is busy when the timer
fires. -/
def lostBehind : List QpEvent :=
  [.add 10, .send 0 true, .other 0 (.loseData 0), .tick 500, .add 10, .send 1 true,
    .other 1 (.loseData 0), .tick 1000, .timeout none]

/-- A message that fills its window loses its flight with no timer pending; `RecoverMSG` makes such
a message sendable again without a call of the NIC; and it leaves a message that has not timed out
without a timer. -/
theorem timer_lost :
    (∃ s, QueuePair.Reaches smallQp s ∧ s.eventTimeoutRetransmission = none ∧ ∃ m ∈ s.live,
      Unacked (m.cfg smallQp) m.op ∧ 0 < m.op.getBytesLeft (m.cfg smallQp) ∧
      ¬Sendable smallQp s.win m) ∧
    (∃ s, QueuePair.Reaches smallQp s ∧ s.eventTimeoutRetransmission = some s.now ∧ ∃ m ∈ s.live,
      ¬Sendable smallQp s.win m ∧ Sendable smallQp s.win (m.recoverMSG smallQp s.now) ∧
        (s.recoverMSG smallQp).2 = false) ∧
    ∃ s, QueuePair.Reaches smallQp s ∧ s.eventTimeoutRetransmission = none ∧ ∃ m ∈ s.live,
      Unacked (m.cfg smallQp) m.op ∧ m.op.getBytesLeft (m.cfg smallQp) = 0 := by
  have alone : ∃ s, QueuePair.run smallQp (fun _ _ => True) { win := 20 } lostFlight = some s ∧
      s.eventTimeoutRetransmission = none ∧ ∃ m ∈ s.live,
        Unacked (m.cfg smallQp) m.op ∧ 0 < m.op.getBytesLeft (m.cfg smallQp) ∧
          ¬Sendable smallQp s.win m := by
    refine ⟨_, rfl, ?_⟩
    decide
  have beside : ∃ s, QueuePair.run smallQp (fun _ _ => True) { win := 20 } lostBeside = some s ∧
      s.eventTimeoutRetransmission = some s.now ∧ ∃ m ∈ s.live,
        ¬Sendable smallQp s.win m ∧ Sendable smallQp s.win (m.recoverMSG smallQp s.now) ∧
          (s.recoverMSG smallQp).2 = false := by
    refine ⟨_, rfl, ?_⟩
    decide
  have behind : ∃ s, QueuePair.run smallQp (fun _ _ => True) {} lostBehind = some s ∧
      s.eventTimeoutRetransmission = none ∧ ∃ m ∈ s.live,
        Unacked (m.cfg smallQp) m.op ∧ m.op.getBytesLeft (m.cfg smallQp) = 0 := by
    refine ⟨_, rfl, ?_⟩
    decide
  obtain ⟨s, ends, lost⟩ := alone
  obtain ⟨t, ends', lost'⟩ := beside
  obtain ⟨u, ends'', lost''⟩ := behind
  exact ⟨⟨s, QueuePair.reachable_run (.initial 20) ends, lost⟩,
    ⟨t, QueuePair.reachable_run (.initial 20) ends', lost'⟩,
    u, QueuePair.reachable_run (.initial 0) ends'', lost''⟩

end Rdma

end Pyrrha

import Pyrrha.Rdma.Window

/-!
No premature completion: when the sender completes a message, every byte of it has arrived, in each
reliability mode and whatever the network loses, repeats and reorders.
-/

namespace Pyrrha
open Lib

namespace Rdma

variable {cfg : Config}

/-- What the sender believes has arrived has arrived. -/
structure SndSound (cfg : Config) (s : Sender) (checked : List DataPacket) : Prop where
  goBackN : cfg.mode = .goBackN → ∀ b < s.msg.sndUna, Covered checked b
  disOrder : cfg.mode = .disOrder → s.msg.receivedLastAck = true → AllReceived cfg checked
  window : cfg.mode = .irn → Window cfg s.msg.irn checked
  next : cfg.mode = .irn →
    (cfg.mtu ∣ s.msg.sndNxt ∨ cfg.size ≤ s.msg.sndNxt) ∧ s.msg.sndNxt ≤ s.msg.irn.frontier cfg.mtu
  una : cfg.mode = .irn → cfg.mtu ∣ s.msg.sndUna ∧ s.msg.sndUna ≤ s.msg.irn.frontier cfg.mtu
  timers : cfg.mode = .irn → ∀ q ∈ s.timers, Aligned cfg q
  finished : s.finished = true → AllReceived cfg checked

/-- The sender after an event is sound as well, and its window reaches at least as far. -/
def SndStep (cfg : Config) (checked : List DataPacket) (s t : Sender) : Prop :=
  SndSound cfg t checked ∧ s.msg.irn.frontier cfg.mtu ≤ t.msg.irn.frontier cfg.mtu

theorem sndSound_append {s : Sender} {checked : List DataPacket} (S : SndSound cfg s checked)
    (pkt : DataPacket) : SndSound cfg s (checked ++ [pkt]) where
  goBackN mode b lt := covered_append (S.goBackN mode b lt) pkt
  disOrder mode flag := allReceived_append (S.disOrder mode flag) pkt
  window mode := window_append (S.window mode) pkt
  next := S.next
  una := S.una
  timers := S.timers
  finished flag := allReceived_append (S.finished flag) pkt

theorem sndSound_complete {s : Sender} {checked : List DataPacket} (S : SndSound cfg s checked)
    (all : AllReceived cfg checked) : SndSound cfg s.msgComplete checked :=
  ⟨S.goBackN, S.disOrder, S.window, S.next, S.una, S.timers, fun _ => all⟩

theorem sndSound_sending {s : Sender} {checked : List DataPacket} (S : SndSound cfg s checked)
    (b : Bool) : SndSound cfg { s with isSending := b } checked :=
  ⟨S.goBackN, S.disOrder, S.window, S.next, S.una, S.timers, S.finished⟩

theorem sndSound_recover {s : Sender} {checked : List DataPacket} (S : SndSound cfg s checked) :
    SndSound cfg { s with msg := s.msg.recover cfg } checked := by
  refine ⟨S.goBackN, S.disOrder, S.window, fun mode => ?_, S.una, S.timers, S.finished⟩
  have other : ¬cfg.mode = .disOrder := by simp [mode]
  simp only [SndOperation.recover, if_neg other]
  exact ⟨.inl (S.una mode).1, (S.una mode).2⟩

theorem sndSound_move {s t : Sender} {checked : List DataPacket} (S : SndSound cfg s checked)
    (h : s.moveToSending = some t) : SndSound cfg t checked ∧ t.msg = s.msg := by
  unfold Sender.moveToSending at h
  split at h
  · cases h
    exact ⟨S, rfl⟩
  split at h
  · cases h
  · cases h
    exact ⟨sndSound_sending S true, rfl⟩

theorem sndSound_irn {s : Sender} {checked : List DataPacket} (S : SndSound cfg s checked)
    (irn : SndIrn) (window : cfg.mode = .irn → Window cfg irn checked ∧
      s.msg.irn.frontier cfg.mtu ≤ irn.frontier cfg.mtu) :
    SndSound cfg { s with msg := { s.msg with irn := irn } } checked := by
  refine ⟨S.goBackN, S.disOrder, fun mode => (window mode).1, fun mode => ?_, fun mode => ?_,
    S.timers, S.finished⟩
  · exact ⟨(S.next mode).1, (S.next mode).2.trans (window mode).2⟩
  · exact ⟨(S.una mode).1, (S.una mode).2.trans (window mode).2⟩

/-! ### Acknowledgements -/

theorem acknowledge_irn (m : SndOperation) (ack : ℕ) (isLast : Bool) :
    (m.acknowledge cfg ack isLast).irn = m.irn := by
  unfold SndOperation.acknowledge
  split
  · dsimp only
    split <;> rfl
  · split <;> rfl

theorem sndSound_acknowledge {s : Sender} {checked : List DataPacket}
    (S : SndSound cfg s checked) (ack : ℕ)
    (isLast : Bool) (last : isLast = true → AllReceived cfg checked)
    (covered : cfg.mode = .goBackN → ∀ b < ack, Covered checked b)
    (placed : cfg.mode = .irn → cfg.mtu ∣ ack ∧ ack ≤ s.msg.irn.frontier cfg.mtu) :
    SndSound cfg { s with msg := s.msg.acknowledge cfg ack isLast } checked := by
  unfold SndOperation.acknowledge
  split
  · rename_i mode
    refine ⟨fun h => ?_, fun _ flag => ?_, fun h => ?_, fun h => ?_, fun h => ?_,
      fun h => ?_, S.finished⟩
    · cases mode.symm.trans h
    · dsimp only at flag
      rw [Bool.or_eq_true] at flag
      refine flag.elim (fun old => ?_) last
      split at old <;> exact S.disOrder mode old
    all_goals cases mode.symm.trans h
  split
  · refine ⟨covered, S.disOrder, S.window, S.next, placed, S.timers, S.finished⟩
  · exact S

theorem takeAck_sound {s : Sender} {checked : List DataPacket} {ack : AckPacket}
    (sound : ∀ pkt ∈ checked, Sound cfg pkt) (S : SndSound cfg s checked)
    (A : AckSound cfg checked ack)
    (placed : cfg.mode = .irn → ack.seq ≤ s.msg.irn.frontier cfg.mtu) :
    Overrun cfg checked ∨ SndStep cfg checked s (s.takeAck cfg ack) := by
  unfold Sender.takeAck
  split
  · exact .inr ⟨S, le_refl _⟩
  split
  · rename_i mode
    obtain ⟨pkt, member, seq⟩ := A.seen mode
    have dvd : cfg.mtu ∣ ack.seq := seq ▸ (sound pkt member).aligned mode
    rcases ackIrnState_window sound (S.window mode) dvd (A.seen mode) with all | ⟨W, frontier⟩
    · exact .inl all
    right
    have replaced := sndSound_irn S (s.msg.irn.ackIrnState cfg.mtu ack.seq) fun _ =>
      ⟨W, frontier.ge⟩
    have acked := sndSound_acknowledge replaced ack.seq ack.last A.last A.next
      fun _ => ⟨dvd, by rw [frontier]; exact placed mode⟩
    dsimp only
    split
    · rename_i complete
      refine ⟨sndSound_complete acked (allReceived_of_seen sound fun q aligned => ?_), ?_⟩
      · rw [acknowledge_irn] at complete
        exact W.done q aligned.1 (aligned.2.trans_le complete)
      · simp only [Sender.msgComplete, acknowledge_irn, frontier, le_refl]
    · exact ⟨acked, by simp only [acknowledge_irn, frontier, le_refl]⟩
  · rename_i mode
    right
    have le : (if cfg.backto0 then ack.seq / cfg.chunk * cfg.chunk else ack.seq) ≤ ack.seq := by
      split
      · exact Nat.div_mul_le_self _ _
      · exact le_refl _
    generalize (if cfg.backto0 then ack.seq / cfg.chunk * cfg.chunk else ack.seq) = seq at le ⊢
    have acked := sndSound_acknowledge S seq ack.last A.last
      (fun gbn b lt => A.next gbn b (lt.trans_le le)) fun irn => absurd irn mode
    dsimp only
    split
    · rename_i complete
      refine ⟨sndSound_complete acked ?_, by simp only [Sender.msgComplete,
        acknowledge_irn, le_refl]⟩
      unfold SndOperation.isFinished at complete
      split at complete
      · rename_i disOrder
        exact acked.disOrder disOrder complete
      · rename_i ordered
        have gbn : cfg.mode = .goBackN := by
          cases m : cfg.mode <;> simp_all
        exact fun b lt => acked.goBackN gbn b (lt.trans_le (of_decide_eq_true complete))
    · exact ⟨acked, by simp only [acknowledge_irn, le_refl]⟩

theorem receiveAck_sound {s t : Sender} {checked : List DataPacket} {ack : AckPacket}
    (sound : ∀ pkt ∈ checked, Sound cfg pkt) (S : SndSound cfg s checked)
    (A : AckSound cfg checked ack) (placed : cfg.mode = .irn → ack.seq ≤ s.msg.irn.frontier cfg.mtu)
    (h : s.receiveAck cfg ack = some t) :
    Overrun cfg checked ∨ SndStep cfg checked s t := by
  unfold Sender.receiveAck at h
  split at h
  · cases h
    exact .inr ⟨S, le_refl _⟩
  split at h
  · split at h
    · rename_i last
      cases h
      exact .inr ⟨sndSound_complete S (A.last last), le_refl _⟩
    · cases h
  rcases takeAck_sound sound S A placed with all | ⟨taken, frontier⟩
  · exact .inl all
  right
  dsimp only at h
  split at h
  · obtain ⟨moved, msg⟩ := sndSound_move (sndSound_recover taken) h
    exact ⟨moved, by rw [msg]; exact frontier⟩
  · cases h
    exact ⟨taken, frontier⟩

theorem receiveSack_sound {s t : Sender} {checked : List DataPacket} {ack : AckPacket}
    (sound : ∀ pkt ∈ checked, Sound cfg pkt) (S : SndSound cfg s checked)
    (A : AckSound cfg checked ack)
    (h : s.receiveSack cfg ack = some t) : Overrun cfg checked ∨ SndStep cfg checked s t := by
  unfold Sender.receiveSack at h
  split at h
  · cases h
  rename_i mode
  rw [not_not] at mode
  split at h
  · cases h
    exact .inr ⟨S, le_refl _⟩
  split at h
  · split at h
    · rename_i last
      cases h
      exact .inr ⟨sndSound_complete S (A.last last), le_refl _⟩
    · cases h
  split at h
  · cases h
    exact .inr ⟨S, le_refl _⟩
  obtain ⟨rtx, loop, h⟩ := Option.bind_eq_some_iff.mp h
  obtain ⟨u, moved, h⟩ := Option.bind_eq_some_iff.mp h
  obtain ⟨pkt, member, seq⟩ := A.seen mode
  have dvd : cfg.mtu ∣ ack.seq := seq ▸ (sound pkt member).aligned mode
  have seq_lt : ack.seq < cfg.size := seq ▸ (sound pkt member).seq_lt
  rcases sackIrnState_window ack.nackSeq sound (S.window mode) dvd (A.seen mode) with
    all | ⟨W, frontier⟩
  · exact .inl all
  right
  have queued : ∀ q ∈ (s.msg.irn.sackIrnState cfg.mtu ack.seq ack.nackSeq).rtxSeqQueues ++ rtx,
      Aligned cfg q := by
    intro q member
    rcases List.mem_append.mp member with old | new
    · exact W.rtx q old
    · have small := cfg.size_lt
      obtain ⟨q_dvd, below⟩ := loop32_mem loop (by omega) (A.nackSeq mode) dvd q new
      exact ⟨q_dvd, below.trans seq_lt⟩
  have W' := window_rtx W queued
  obtain ⟨S', msg⟩ := sndSound_move (sndSound_irn S _ fun _ => ⟨W', frontier.ge⟩) moved
  have reach : u.msg.irn.frontier cfg.mtu = s.msg.irn.frontier cfg.mtu := by
    rw [msg]
    exact frontier
  split at h
  · rename_i complete
    cases h
    refine ⟨sndSound_complete S' (allReceived_of_seen sound fun q aligned => ?_), reach.ge⟩
    exact W.done q aligned.1 (aligned.2.trans_le complete)
  · cases h
    exact ⟨S', reach.ge⟩

theorem receive_sound {s t : Sender} {checked : List DataPacket} {ack : AckPacket}
    (sound : ∀ pkt ∈ checked, Sound cfg pkt) (S : SndSound cfg s checked)
    (A : AckSound cfg checked ack) (placed : cfg.mode = .irn → ack.seq ≤ s.msg.irn.frontier cfg.mtu)
    (h : s.receive cfg ack = some t) :
    Overrun cfg checked ∨ SndStep cfg checked s t := by
  unfold Sender.receive at h
  split at h
  · exact receiveAck_sound sound S A placed h
  · exact receiveAck_sound sound S A placed h
  · exact receiveSack_sound sound S A h

/-! ### Timers -/

theorem recoverMSG_sound {s : Sender} {checked : List DataPacket} (S : SndSound cfg s checked) :
    SndStep cfg checked s (s.recoverMSG cfg) := by
  unfold Sender.recoverMSG
  split
  · exact ⟨S, le_refl _⟩
  · exact ⟨sndSound_sending (sndSound_recover S) true, le_refl _⟩

theorem irnTimer_sound {s : Sender} {checked : List DataPacket} {seq : ℕ}
    (S : SndSound cfg s checked)
    (armed : seq ∈ s.timers) : SndStep cfg checked s (s.irnTimerHandler cfg seq) := by
  unfold Sender.irnTimerHandler
  dsimp only
  split
  · have frontier := frontier_set cfg.mtu s.msg.irn seq .nack
    have queued : cfg.mode = .irn → Window cfg { s.msg.irn.setSeqState cfg.mtu seq .nack with
        rtxSeqQueues := s.msg.irn.rtxSeqQueues ++ [seq] } checked := by
      intro mode
      have W : Window cfg (s.msg.irn.setSeqState cfg.mtu seq .nack) checked :=
        window_set (S.window mode) _ nofun
      refine window_rtx W fun q member => ?_
      rcases List.mem_append.mp member with old | new
      · exact W.rtx q old
      · rw [List.mem_singleton.mp new]
        exact S.timers mode seq armed
    exact ⟨sndSound_sending (sndSound_irn S _ fun mode => ⟨queued mode, frontier.ge⟩) _,
      frontier.ge⟩
  · exact ⟨S, le_refl _⟩

/-! ### Sending -/

/-- The sender has a packet to send. -/
structure Ready (cfg : Config) (m : SndOperation) : Prop where
  goBackN : cfg.mode = .goBackN → m.sndNxt < cfg.size
  disOrder : cfg.mode = .disOrder → m.sndNxt < cfg.size ∨ m.timeouted = true ∧
    m.timeoutPsn.elems ≠ []
  missing : cfg.mode = .irn → ∀ q ∈ m.irn.rtxSeqQueues, m.irn.isMissing cfg.mtu q = true
  irn : cfg.mode = .irn → m.irn.rtxSeqQueues = [] → m.sndNxt < cfg.size

theorem bytesLeft_ready {m : SndOperation} (mode : cfg.mode ≠ .irn)
    (left : 0 < m.getBytesLeft cfg) : Ready cfg m := by
  unfold SndOperation.getBytesLeft at left
  dsimp only at left
  rw [if_neg mode] at left
  refine ⟨fun gbn => ?_, fun disOrder => ?_, fun irn => absurd irn mode, fun irn => absurd irn mode⟩
  · rw [if_neg (by simp [gbn])] at left
    omega
  · split at left
    · rename_i recovering
      exact .inr recovering.2
    · left
      omega

theorem shouldSndData_ready {s t : Sender} (h : s.shouldSndData cfg = (t, true)) :
    Ready cfg t.msg := by
  unfold Sender.shouldSndData at h
  split at h
  · cases h
  rename_i peeked
  rw [Bool.not_eq_true', Bool.not_eq_false] at peeked
  split at h
  · rename_i mode
    dsimp only at h
    split at h
    · cases h
    · rename_i some_left
      cases h
      refine ⟨fun h => ?_, fun h => ?_, fun _ q member => ?_, fun _ none => ?_⟩
      · cases mode.symm.trans h
      · cases mode.symm.trans h
      · exact (List.mem_filter.mp member).2
      · by_contra all_sent
        have beyond : cfg.size ≤ s.msg.sndNxt := not_lt.mp all_sent
        refine some_left ⟨?_, none⟩
        have none' : s.msg.irn.rtxSeqQueues.filter (s.msg.irn.isMissing cfg.mtu) = [] := none
        simp only [SndOperation.getBytesLeft, mode, none', List.length_nil]
        exact Nat.sub_eq_zero_of_le beyond
  · rename_i mode
    cases h
    refine bytesLeft_ready mode ?_
    simp only [Sender.peek, mode, Bool.and_eq_true, decide_false, Bool.false_and, Bool.or_false,
      decide_eq_true_eq] at peeked
    exact peeked.2

theorem shouldSndData_sound {s : Sender} {checked : List DataPacket} (S : SndSound cfg s checked) :
    SndStep cfg checked s (s.shouldSndData cfg).1 := by
  unfold Sender.shouldSndData
  split
  · exact ⟨S, le_refl _⟩
  split
  · rename_i mode
    have W : Window cfg { s.msg.irn with
        rtxSeqQueues := s.msg.irn.rtxSeqQueues.filter (s.msg.irn.isMissing cfg.mtu) } checked :=
      window_rtx (S.window mode) fun q member => (S.window mode).rtx q (List.mem_filter.mp member).1
    have filtered := sndSound_irn S _ fun _ => ⟨W, le_refl _⟩
    dsimp only
    split
    · exact ⟨sndSound_sending filtered false, le_refl _⟩
    · exact ⟨filtered, le_refl _⟩
  · exact ⟨S, le_refl _⟩

/-- A new packet starts below the size and ends at the size or is full. -/
theorem getNxtPayload_sound {m m' : SndOperation} {seq payload : ℕ} (ready : Ready cfg m)
    (h : m.getNxtPayload cfg = some (seq, payload, m')) (fresh : cfg.mode = .irn →
      m.irn.rtxSeqQueues = []) :
    seq < cfg.size ∧ payload ≤ cfg.mtu ∧ (payload = cfg.mtu ∨ cfg.size ≤ seq + payload) ∧
      (cfg.mode ≠ .disOrder → seq = m.sndNxt ∧ m' = m) ∧ m'.irn = m.irn ∧ m'.sndUna = m.sndUna ∧
      m'.receivedLastAck = m.receivedLastAck := by
  obtain ⟨⟨psn, picked⟩, pick, h⟩ := Option.bind_eq_some_iff.mp h
  cases h
  have size_lt := cfg.size_lt
  have wraps : add32 seq cfg.mtu ≤ seq + cfg.mtu := Nat.mod_le _ _
  have seq_lt : seq < cfg.size ∧ (cfg.mode ≠ .disOrder → seq = m.sndNxt ∧ m' = m) ∧ m'.irn = m.irn ∧
      m'.sndUna = m.sndUna ∧ m'.receivedLastAck = m.receivedLastAck := by
    unfold SndOperation.nextPsn at pick
    dsimp only at pick
    split at pick
    · rename_i mode
      cases pick
      have lt : m.sndNxt < cfg.size := by
        cases mode' : cfg.mode with
        | goBackN => exact ready.goBackN mode'
        | disOrder => exact absurd mode' mode
        | irn => exact ready.irn mode' (fresh mode')
      have small : m.sndNxt % 2 ^ 32 = m.sndNxt := Nat.mod_eq_of_lt (by omega)
      exact ⟨by omega, fun _ => ⟨small, rfl⟩, rfl, rfl, rfl⟩
    · rename_i mode
      rw [not_not] at mode
      split at pick
      · split at pick
        · cases pick
        · rename_i lt
          cases pick
          exact ⟨by omega, fun other => absurd mode other, rfl, rfl, rfl⟩
      · rename_i no_retry
        cases pick
        refine ⟨?_, fun other => absurd mode other, rfl, rfl, rfl⟩
        rcases ready.disOrder mode with lt | ⟨recovering, some_psn⟩
        · exact (Nat.mod_le _ _).trans_lt lt
        · by_contra beyond
          cases elems : m.timeoutPsn.elems with
          | nil => exact some_psn elems
          | cons first rest =>
            have past : (m.timeouted && decide (cfg.size ≤ m.sndNxt % 2 ^ 32)) = true := by
              rw [recovering, Bool.true_and, decide_eq_true_eq]
              exact not_lt.mp beyond
            exact no_retry first rest past elems
  obtain ⟨lt, rest⟩ := seq_lt
  refine ⟨lt, ?_, ?_, rest⟩
  · split
    · rename_i ends
      have : sub32 cfg.size seq = cfg.size - seq := by
        unfold sub32
        omega
      omega
    · exact le_refl _
  · split
    · right
      have : sub32 cfg.size seq = cfg.size - seq := by
        unfold sub32
        omega
      omega
    · exact .inl rfl

theorem popRtx_some {irn : SndIrn} {p seq : ℕ} {queue rest : List ℕ}
    (h : Sender.popRtx p irn queue = (some seq, rest)) :
    seq ∈ queue ∧ irn.isMissing p seq = true ∧ rest ⊆ queue := by
  induction queue with
  | nil => cases h
  | cons q tail ih =>
    unfold Sender.popRtx at h
    split at h
    · rename_i missing
      cases h
      exact ⟨List.mem_cons_self, missing, List.subset_cons_self _ _⟩
    · obtain ⟨member, missing, sub⟩ := ih h
      exact ⟨List.mem_cons_of_mem q member, missing,
        List.Subset.trans sub (List.subset_cons_self _ _)⟩

theorem popRtx_none {irn : SndIrn} {p : ℕ} {queue rest : List ℕ}
    (h : Sender.popRtx p irn queue = (none, rest)) :
    rest = [] ∧ ∀ q ∈ queue, irn.isMissing p q = false := by
  induction queue with
  | nil =>
    cases h
    exact ⟨rfl, fun q member => by cases member⟩
  | cons q tail ih =>
    unfold Sender.popRtx at h
    split at h
    · cases h
    · rename_i found
      obtain ⟨eq, all⟩ := ih h
      refine ⟨eq, fun x member => ?_⟩
      rcases List.mem_cons.mp member with rfl | member
      · exact Bool.not_eq_true _ ▸ found
      · exact all x member

theorem getPayloadSize_sound {irn : SndIrn} {checked : List DataPacket} {seq : ℕ}
    (W : Window cfg irn checked)
    (missing : irn.isMissing cfg.mtu seq = true) (dvd : cfg.mtu ∣ seq) :
    irn.getPayloadSize cfg.mtu seq ≤ cfg.mtu ∧
      (irn.getPayloadSize cfg.mtu seq = cfg.mtu ∨
        cfg.size ≤ seq + irn.getPayloadSize cfg.mtu seq) := by
  obtain ⟨ge, lt⟩ := isMissing_index missing
  have inside : ¬(irn.getNextSequenceNumber cfg.mtu ≤ seq ∨ seq < irn.baseSeq) := by
    rintro (beyond | before)
    · simp [SndIrn.isMissing, SndIrn.getIrnState, beyond] at missing
    · omega
  rw [← W.length] at lt
  have value : irn.getPayloadSize cfg.mtu seq = irn.payloads[irn.index cfg.mtu seq] := by
    rw [SndIrn.getPayloadSize, if_neg inside, List.getD_eq_getElem _ _ lt]
  have found := W.payloads (irn.index cfg.mtu seq) _ (List.getElem?_eq_getElem lt)
  rwa [index_seq W.aligned dvd ge, ← value] at found

/-- What `GetNxtPacket` picks: a packet of the message, inside the window it leaves. -/
structure Picked (cfg : Config) (s : Sender) (checked : List DataPacket) (seq payload : ℕ)
    (m : SndOperation) : Prop where
  seq_lt : seq < cfg.size
  le : payload ≤ cfg.mtu
  reach : payload = cfg.mtu ∨ cfg.size ≤ seq + payload
  placed : cfg.mode = .irn → cfg.mtu ∣ seq ∧ seq + cfg.mtu ≤ m.irn.frontier cfg.mtu
  step : SndStep cfg checked s { s with msg := m }

theorem rtx_picked {s : Sender} {checked : List DataPacket} {seq : ℕ} {rest : List ℕ}
    (S : SndSound cfg s checked) (mode : cfg.mode = .irn)
    (popped : Sender.popRtx cfg.mtu s.msg.irn s.msg.irn.rtxSeqQueues = (some seq, rest)) :
    Picked cfg s checked seq ({ s.msg.irn with rtxSeqQueues := rest }.getPayloadSize cfg.mtu seq)
      { s.msg with
        irn := { s.msg.irn with rtxSeqQueues := rest }.setSeqState cfg.mtu seq .unack } := by
  obtain ⟨member, missing, sub⟩ := popRtx_some popped
  have W := S.window mode
  obtain ⟨dvd, lt⟩ := W.rtx seq member
  obtain ⟨ge, inside⟩ := isMissing_index missing
  have W' := window_rtx W fun q hq => W.rtx q (sub hq)
  obtain ⟨le, reach⟩ := getPayloadSize_sound W' missing dvd
  have frontier := frontier_set cfg.mtu { s.msg.irn with rtxSeqQueues := rest } seq .unack
  refine ⟨lt, le, reach, fun _ => ⟨dvd, ?_⟩, sndSound_irn S _ fun _ =>
    ⟨window_set W' _ nofun, frontier.ge⟩, frontier.ge⟩
  have position := index_seq W.aligned dvd ge
  have bound := Nat.mul_le_mul_right cfg.mtu (Nat.succ_le_of_lt inside)
  rw [Nat.succ_mul] at bound
  refine Nat.le_trans ?_ frontier.ge
  change seq + cfg.mtu ≤ s.msg.irn.baseSeq + s.msg.irn.states.length * cfg.mtu
  omega

theorem new_picked {s : Sender} {checked : List DataPacket} {seq payload : ℕ} {rest : List ℕ}
    {m : SndOperation}
    (S : SndSound cfg s checked) (ready : Ready cfg s.msg) (mode : cfg.mode = .irn)
    (popped : Sender.popRtx cfg.mtu s.msg.irn s.msg.irn.rtxSeqQueues = (none, rest))
    (next : s.msg.getNxtPayload cfg = some (seq, payload, m)) :
    Picked cfg s checked seq payload
      { m with irn := { m.irn with rtxSeqQueues := rest }.sendNewPacket payload } := by
  obtain ⟨rfl, all_sent⟩ := popRtx_none popped
  have empty : s.msg.irn.rtxSeqQueues = [] := by
    refine List.eq_nil_iff_forall_not_mem.mpr fun q member => ?_
    have := ready.missing mode q member
    rw [all_sent q member] at this
    cases this
  obtain ⟨lt, le, reach, same, _⟩ := getNxtPayload_sound ready next fun _ => empty
  obtain ⟨rfl, rfl⟩ := same (by simp [mode])
  obtain ⟨aligned, bound⟩ := S.next mode
  have dvd : cfg.mtu ∣ s.msg.sndNxt := aligned.resolve_right (by omega)
  have W : Window cfg { s.msg.irn with rtxSeqQueues := [] } checked :=
    window_rtx (S.window mode) fun q member => by cases member
  have sent := window_send W le (reach.imp_right fun h => by
    have : s.msg.sndNxt ≤ SndIrn.frontier cfg.mtu { s.msg.irn with rtxSeqQueues := [] } := bound
    omega)
  have grows : s.msg.irn.frontier cfg.mtu + cfg.mtu =
      (SndIrn.sendNewPacket { s.msg.irn with rtxSeqQueues := [] } payload).frontier cfg.mtu :=
    (frontier_send cfg.mtu { s.msg.irn with rtxSeqQueues := [] } payload).symm
  refine ⟨lt, le, reach, fun _ => ⟨dvd, ?_⟩, sndSound_irn S _ fun _ => ⟨sent, ?_⟩, ?_⟩
  · exact (Nat.add_le_add_right bound cfg.mtu).trans grows.le
  · exact (Nat.le_add_right _ _).trans grows.le
  · exact (Nat.le_add_right _ _).trans grows.le

theorem nextPacket_picked {s : Sender} {checked : List DataPacket} {seq payload : ℕ}
    {m : SndOperation} (S : SndSound cfg s checked) (ready : Ready cfg s.msg)
    (h : Sender.nextPacket cfg s.msg = some (seq, payload, m)) :
    Picked cfg s checked seq payload m := by
  unfold Sender.nextPacket at h
  split at h
  · rename_i mode
    split at h
    · rename_i q rest popped
      cases h
      exact rtx_picked S mode popped
    · rename_i rest popped
      obtain ⟨⟨q, v, m'⟩, next, h⟩ := Option.bind_eq_some_iff.mp h
      cases h
      exact new_picked S ready mode popped next
  · rename_i mode
    obtain ⟨lt, le, reach, _, irn, una, lastAck⟩ := getNxtPayload_sound ready h fun irn =>
      absurd irn mode
    refine ⟨lt, le, reach, fun irn => absurd irn mode,
      ⟨?_, ?_, ?_, ?_, ?_, ?_, S.finished⟩, by rw [irn]⟩
    · intro gbn b below
      exact S.goBackN gbn b (by rwa [una] at below)
    · intro disOrder flag
      exact S.disOrder disOrder (by rwa [lastAck] at flag)
    all_goals exact fun irn => absurd irn mode

theorem getNxtPacket_sound {s t : Sender} {checked : List DataPacket} {pkt : DataPacket}
    (S : SndSound cfg s checked) (ready : Ready cfg s.msg)
    (h : s.getNxtPacket cfg = some (t, pkt)) : SndStep cfg checked s t ∧ Sound cfg pkt ∧
      (cfg.mode = .irn → pkt.seq ≤ t.msg.irn.frontier cfg.mtu) := by
  obtain ⟨⟨seq, payload, m⟩, next, h⟩ := Option.bind_eq_some_iff.mp h
  cases h
  have P := nextPacket_picked S ready next
  have S' := P.step.1
  refine ⟨⟨⟨S'.goBackN, S'.disOrder, S'.window, fun mode => ?_, S'.una, fun mode q member => ?_,
    S'.finished⟩,
    P.step.2⟩, ⟨P.seq_lt, P.reach, fun last => ?_, fun mode => (P.placed mode).1⟩, fun mode => ?_⟩
  · obtain ⟨dvd, bound⟩ := P.placed mode
    dsimp only
    split
    · rename_i eq
      have le := P.le
      refine ⟨?_, by omega⟩
      rcases P.reach with full | ends
      · left
        rw [← eq, full]
        exact Nat.dvd_add dvd (Nat.dvd_refl _)
      · right
        omega
    · exact S'.next mode
  · dsimp only at member
    rw [if_pos mode] at member
    rcases List.mem_append.mp member with old | new
    · exact S.timers mode q old
    · rw [List.mem_singleton.mp new]
      exact ⟨(P.placed mode).1, P.seq_lt⟩
  · have wraps : add32 seq cfg.mtu ≤ seq + cfg.mtu := Nat.mod_le _ _
    exact (of_decide_eq_true last).trans wraps
  · have := (P.placed mode).2
    dsimp only
    omega

/-! ### Runs -/

/-- The two ends and everything in flight agree with the packets that have arrived. -/
structure Inv (cfg : Config) (s : Session) : Prop where
  snd : SndSound cfg s.snd s.rcv.checked
  rcv : RcvSound cfg s.rcv
  data : ∀ pkt ∈ s.data, Sound cfg pkt
  acks : ∀ ack ∈ s.acks, AckSound cfg s.rcv.checked ack
  placed : cfg.mode = .irn → ∀ pkt, pkt ∈ s.data ∨ pkt ∈ s.rcv.checked →
    pkt.seq ≤ s.snd.msg.irn.frontier cfg.mtu

theorem initial_inv (cfg : Config) : Inv cfg {} where
  snd := {
    goBackN _ b lt := absurd lt (Nat.not_lt_zero b)
    disOrder _ flag := by cases flag
    window _ :=
      ⟨Nat.dvd_zero _, (by decide), fun q _ lt => absurd lt (Nat.not_lt_zero q), nofun, rfl, nofun,
      nofun⟩
    next _ := ⟨.inl (Nat.dvd_zero _), Nat.zero_le _⟩
    una _ := ⟨Nat.dvd_zero _, Nat.zero_le _⟩
    timers _ q member := by cases member
    finished flag := by cases flag }
  rcv := ⟨nofun, fresh_sound cfg [], fun _ => fresh_window cfg⟩
  data pkt member := by cases member
  acks ack member := by cases member
  placed _ pkt member := by simp at member

theorem inv_snd {s : Session} {snd : Sender} (I : Inv cfg s)
    (step : SndStep cfg s.rcv.checked s.snd snd) : Inv cfg { s with snd := snd } :=
  ⟨step.1, I.rcv, I.data, I.acks, fun mode pkt member => (I.placed mode pkt member).trans step.2⟩

theorem inv_network {s : Session} {data : List DataPacket} {acks : List AckPacket} (I : Inv cfg s)
    (data_sub : data ⊆ s.data) (acks_sub : acks ⊆ s.acks) :
    Inv cfg { s with data := data, acks := acks } :=
  ⟨I.snd, I.rcv, fun pkt member => I.data pkt (data_sub member),
    fun ack member => I.acks ack (acks_sub member),
    fun mode pkt member => I.placed mode pkt (member.imp_left fun h => data_sub h)⟩

theorem send_inv {s t : Session} {allowed : Bool} (I : Inv cfg s)
    (h : s.send cfg allowed = some t) : Inv cfg t := by
  unfold Session.send at h
  cases should : s.snd.shouldSndData cfg with
  | mk u ready =>
    have first : SndStep cfg s.rcv.checked s.snd u := by
      have moved := shouldSndData_sound I.snd
      rwa [should] at moved
    simp only [should] at h
    split at h
    · rename_i go
      rw [Bool.and_eq_true] at go
      have has_packet := shouldSndData_ready (should.trans (congrArg _ go.1))
      obtain ⟨⟨v, pkt⟩, sent, h⟩ := Option.bind_eq_some_iff.mp h
      cases h
      obtain ⟨second, sound, placed⟩ := getNxtPacket_sound first.1 has_packet sent
      refine ⟨second.1, I.rcv, fun x member => ?_, I.acks, fun mode x member => ?_⟩
      · rcases List.mem_append.mp member with old | new
        · exact I.data x old
        · rw [List.mem_singleton.mp new]
          exact sound
      · have reach := first.2.trans second.2
        rcases member with flying | arrived
        · rcases List.mem_append.mp flying with old | new
          · exact (I.placed mode x (.inl old)).trans reach
          · rw [List.mem_singleton.mp new]
            exact placed mode
        · exact (I.placed mode x (.inr arrived)).trans reach
    · cases h
      exact inv_snd I first

theorem dataArrives_inv {s t : Session} {k : ℕ} {expired : Bool} (fits : Fits cfg) (I : Inv cfg s)
    (h : s.dataArrives cfg k expired = some t) : Inv cfg t := by
  obtain ⟨pkt, arrives, h⟩ := Option.bind_eq_some_iff.mp h
  obtain ⟨⟨r, ack⟩, receive, h⟩ := Option.bind_eq_some_iff.mp h
  cases h
  have member := List.mem_of_getElem? arrives
  obtain ⟨R, checked, answered⟩ := receiveUdp_sound fits I.rcv (I.data pkt member) receive
  have rest : ∀ x ∈ s.data.eraseIdx k, x ∈ s.data := fun x hx => List.mem_of_mem_eraseIdx hx
  have kept : SndSound cfg s.snd r.checked ∧ ∀ a ∈ s.acks, AckSound cfg r.checked a := by
    rcases checked with same | more
    · rw [same]
      exact ⟨I.snd, I.acks⟩
    · rw [more]
      exact ⟨sndSound_append I.snd pkt, fun a ha => ackSound_append (I.acks a ha) pkt⟩
  refine ⟨kept.1, R, fun x hx => I.data x (rest x hx), fun a ha => ?_, fun mode x hx => ?_⟩
  · rcases List.mem_append.mp ha with old | new
    · exact kept.2 a old
    · exact answered a (by simpa using new)
  · rcases hx with flying | arrived
    · exact I.placed mode x (.inl (rest x flying))
    · rcases checked with same | more
      · exact I.placed mode x (.inr (same ▸ arrived))
      · rcases List.mem_append.mp (more ▸ arrived) with old | new
        · exact I.placed mode x (.inr old)
        · rw [List.mem_singleton.mp new]
          exact I.placed mode pkt (.inl member)

theorem ackArrives_inv {s t : Session} {k : ℕ} (I : Inv cfg s) (h : s.ackArrives cfg k = some t) :
    Overrun cfg t.rcv.checked ∨ Inv cfg t := by
  obtain ⟨ack, arrives, h⟩ := Option.bind_eq_some_iff.mp h
  obtain ⟨snd, receive, h⟩ := Option.bind_eq_some_iff.mp h
  cases h
  have A := I.acks ack (List.mem_of_getElem? arrives)
  have placed : cfg.mode = .irn → ack.seq ≤ s.snd.msg.irn.frontier cfg.mtu := by
    intro mode
    obtain ⟨pkt, arrived, seq⟩ := A.seen mode
    rw [← seq]
    exact I.placed mode pkt (.inr arrived)
  refine (receive_sound I.rcv.checked I.snd A placed receive).imp_right fun step => ?_
  have network : Inv cfg { s with acks := s.acks.eraseIdx k } :=
    inv_network I (List.Subset.refl _) fun a ha => List.mem_of_mem_eraseIdx ha
  exact inv_snd network step

theorem step_allReceived {s t : Session} {ev : Event} (all : AllReceived cfg s.rcv.checked)
    (h : s.step cfg ev = some t) : AllReceived cfg t.rcv.checked := by
  cases ev with
  | send allowed =>
    simp only [Session.step, Session.send] at h
    split at h
    · obtain ⟨_, _, h⟩ := Option.bind_eq_some_iff.mp h
      cases h
      exact all
    · cases h
      exact all
  | dataArrives k expired =>
    obtain ⟨pkt, _, h⟩ := Option.bind_eq_some_iff.mp h
    obtain ⟨⟨r, ack⟩, receive, h⟩ := Option.bind_eq_some_iff.mp h
    cases h
    rcases receiveUdp_cases receive with ⟨_, rfl, _⟩ | ⟨_, rx, x, nackSeq, _, checked, _⟩
    · exact all
    · dsimp only
      rw [checked]
      exact allReceived_append all pkt
  | ackArrives k =>
    obtain ⟨_, _, h⟩ := Option.bind_eq_some_iff.mp h
    obtain ⟨_, _, h⟩ := Option.bind_eq_some_iff.mp h
    cases h
    exact all
  | irnTimer seq =>
    simp only [Session.step] at h
    split at h <;> cases h
    exact all
  | duplicateData k =>
    obtain ⟨_, _, h⟩ := Option.map_eq_some_iff.mp h
    exact h ▸ all
  | duplicateAck k =>
    obtain ⟨_, _, h⟩ := Option.map_eq_some_iff.mp h
    exact h ▸ all
  | timeout | loseData | loseAck =>
    cases h
    exact all

theorem step_inv {s t : Session} {ev : Event} (fits : Fits cfg) (I : Inv cfg s)
    (h : s.step cfg ev = some t) : Overrun cfg t.rcv.checked ∨ Inv cfg t := by
  cases ev with
  | send allowed => exact .inr (send_inv I h)
  | timeout =>
    cases h
    exact .inr (inv_snd I (recoverMSG_sound I.snd))
  | irnTimer seq =>
    simp only [Session.step] at h
    split at h
    · rename_i armed
      cases h
      exact .inr (inv_snd I (irnTimer_sound I.snd armed))
    · cases h
  | dataArrives k expired => exact .inr (dataArrives_inv fits I h)
  | ackArrives k => exact ackArrives_inv I h
  | loseData k =>
    cases h
    exact .inr (inv_network I (fun x hx => List.mem_of_mem_eraseIdx hx) (List.Subset.refl _))
  | loseAck k =>
    cases h
    exact .inr (inv_network I (List.Subset.refl _) fun x hx => List.mem_of_mem_eraseIdx hx)
  | duplicateData k =>
    obtain ⟨pkt, found, rfl⟩ := Option.map_eq_some_iff.mp h
    refine .inr (inv_network I (fun x hx => ?_) (List.Subset.refl _))
    rcases List.mem_append.mp hx with old | new
    · exact old
    · exact List.mem_singleton.mp new ▸ List.mem_of_getElem? found
  | duplicateAck k =>
    obtain ⟨ack, found, rfl⟩ := Option.map_eq_some_iff.mp h
    refine .inr (inv_network I (List.Subset.refl _) fun x hx => ?_)
    rcases List.mem_append.mp hx with old | new
    · exact old
    · exact List.mem_singleton.mp new ▸ List.mem_of_getElem? found

theorem reachable_inv {allowed : Session → Event → Prop} {s : Session} (fits : Fits cfg)
    (h : Session.Reachable cfg allowed s) : Overrun cfg s.rcv.checked ∨ Inv cfg s := by
  induction h with
  | initial => exact .inr (initial_inv cfg)
  | step _ _ call ih => exact ih.elim (fun wrapped =>
      .inl ⟨wrapped.1, step_allReceived wrapped.2 call⟩) fun I => step_inv fits I call

theorem reachable_small {allowed : Session → Event → Prop} {s : Session}
    (fits : cfg.lastEnd < 2 ^ 32) (h : Session.Reachable cfg allowed s) : Inv cfg s :=
  (reachable_inv (fun _ => fits.le) h).resolve_left fun wrapped =>
    absurd wrapped.1 (not_le.mpr fits)

/-- The sender completes a message only when every byte of it has arrived. -/
theorem no_premature_completion (fits : Fits cfg) {s : Session} (h : Session.Reaches cfg s)
    (finished : s.snd.finished = true) : AllReceived cfg s.rcv.checked :=
  (reachable_inv fits h).elim (fun wrapped => wrapped.2) fun I => I.snd.finished finished

/-- IRN: the second of two packets overtakes the first, which is lost once and sent again. -/
def overtakenRun : List Event :=
  [.send true, .send true, .loseData 0, .dataArrives 0 true, .ackArrives 0, .send true,
    .dataArrives 0 true, .ackArrives 0]

theorem no_premature_completion_irn : ∃ s, Session.Reaches (Session.smallConfig .irn 15) s ∧
    s.snd.finished = true ∧ AllReceived (Session.smallConfig .irn 15) s.rcv.checked := by
  have ends : ∃ s, Session.run (Session.smallConfig .irn 15) (fun _ _ => True) {} overtakenRun =
    some s ∧ s.snd.finished = true := by
    refine ⟨_, Option.get_mem (?_ : Option.isSome _), ?_⟩ <;> decide
  obtain ⟨s, ends, finished⟩ := ends
  have reaches := Session.reachable_run .initial ends
  have fits : Fits (Session.smallConfig .irn 15) := fun _ => by decide
  exact ⟨s, reaches, finished, no_premature_completion fits reaches finished⟩

/-- A message whose last packet ends beyond `2 ^ 32`. -/
def wrappingConfig : Config :=
  { Session.smallConfig .irn 0 with
    size := 2 ^ 31 + 1000
    size_lt := by decide
    mtu := 2 ^ 31 + 500
    mtu_pos := by decide
    mtu_lt := by decide }

/-- The window counts to `2 ^ 32` and a packet with a wrapped number acknowledges the first
position. -/
def wrappedRun : List Event :=
  [.send true, .send true, .loseData 0, .duplicateData 0, .dataArrives 0 true,
    .dataArrives 0 true, .loseAck 0,
    .timeout, .send true, .loseData 0, .ackArrives 0, .send true, .dataArrives 0 true,
      .duplicateAck 0, .ackArrives 0, .ackArrives 0]

theorem premature_completion : ∃ s, Session.Reaches wrappingConfig s ∧ s.snd.finished = true ∧
    ¬AllReceived wrappingConfig s.rcv.checked := by
  have ends : ∃ s, Session.run wrappingConfig (fun _ _ => True) {} wrappedRun = some s ∧
    s.snd.finished = true ∧ ∀ pkt ∈ s.rcv.checked, pkt.seq ≠ 0 := by
    refine ⟨_, Option.get_mem (?_ : Option.isSome _), ?_⟩ <;> decide
  obtain ⟨s, ends, finished, missing⟩ := ends
  refine ⟨s, Session.reachable_run .initial ends, finished, fun all => ?_⟩
  obtain ⟨pkt, member, covers⟩ := all 0 (by decide)
  exact missing pkt member (Nat.le_zero.mp covers.1)

end Rdma

end Pyrrha

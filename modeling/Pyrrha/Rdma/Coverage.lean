import Mathlib.Data.List.GetD
import Pyrrha.Rdma.Session

/-!
What the receiver has got: the bytes of the packets passed to `ReceiverCheckSeq`. Every
acknowledgement it sends is sound for them, and a packet that sets the last tag on one leaves no
byte out.
-/

namespace Pyrrha
open Lib

namespace Rdma

variable {cfg : Config}

def DataPacket.Covers (pkt : DataPacket) (b : ℕ) : Prop := pkt.seq ≤ b ∧ b < pkt.seq + pkt.payload

def Covered (checked : List DataPacket) (b : ℕ) : Prop := ∃ pkt ∈ checked, pkt.Covers b

/-- Every byte of the message has arrived. -/
def AllReceived (cfg : Config) (checked : List DataPacket) : Prop :=
  ∀ b < cfg.size, Covered checked b

/-- A packet with this sequence number has arrived. -/
def Seen (checked : List DataPacket) (q : ℕ) : Prop := ∃ pkt ∈ checked, pkt.seq = q

/-- The sequence number of a packet of the message that starts at a multiple of the payload. -/
def Aligned (cfg : Config) (q : ℕ) : Prop := cfg.mtu ∣ q ∧ q < cfg.size

/-- What holds of every data packet that was sent. -/
structure Sound (cfg : Config) (pkt : DataPacket) : Prop where
  seq_lt : pkt.seq < cfg.size
  reach : pkt.payload = cfg.mtu ∨ cfg.size ≤ pkt.seq + pkt.payload
  last : pkt.last = true → cfg.size ≤ pkt.seq + cfg.mtu
  aligned : cfg.mode = .irn → cfg.mtu ∣ pkt.seq

theorem covered_append {checked : List DataPacket} {b : ℕ} (h : Covered checked b)
    (pkt : DataPacket) : Covered (checked ++ [pkt]) b := by
  obtain ⟨x, member, covers⟩ := h
  exact ⟨x, List.mem_append_left _ member, covers⟩

theorem allReceived_append {checked : List DataPacket} (h : AllReceived cfg checked)
    (pkt : DataPacket) :
    AllReceived cfg (checked ++ [pkt]) := fun b lt => covered_append (h b lt) pkt

theorem seen_append {checked : List DataPacket} {q : ℕ} (h : Seen checked q) (pkt : DataPacket) :
    Seen (checked ++ [pkt]) q := by
  obtain ⟨x, member, eq⟩ := h
  exact ⟨x, List.mem_append_left _ member, eq⟩

theorem allReceived_of_seen {checked : List DataPacket} (sound : ∀ pkt ∈ checked, Sound cfg pkt)
    (seen : ∀ q, Aligned cfg q → Seen checked q) : AllReceived cfg checked := by
  intro b lt
  have below : b / cfg.mtu * cfg.mtu ≤ b := Nat.div_mul_le_self b cfg.mtu
  have above : b < b / cfg.mtu * cfg.mtu + cfg.mtu := by
    have := Nat.lt_div_mul_add cfg.mtu_pos (a := b)
    omega
  obtain ⟨pkt, member, seq⟩ := seen (b / cfg.mtu * cfg.mtu) ⟨Nat.dvd_mul_left _ _, by omega⟩
  refine ⟨pkt, member, by omega, ?_⟩
  rcases (sound pkt member).reach with full | short <;> omega

/-! ### ReceivedAll -/

/-- An increasing run of multiples contains every multiple below each of its members. -/
theorem contiguous_mem {p a x : ℕ} {l : List ℕ} (h : RxOperation.contiguous p a l = true)
    (sorted : l.Pairwise (· < ·)) (lt : a < 2 ^ 32) (small : p < 2 ^ 32) (member : x ∈ l) :
    ∃ j, x = a + j * p ∧ ∀ i ≤ j, a + i * p ∈ l := by
  induction l generalizing a with
  | nil => cases member
  | cons y rest ih =>
    simp only [RxOperation.contiguous, Bool.and_eq_true, decide_eq_true_eq] at h
    obtain ⟨rfl, tail⟩ := h
    obtain ⟨below, sorted'⟩ := List.pairwise_cons.mp sorted
    rcases List.mem_cons.mp member with rfl | member
    · refine ⟨0, by omega, fun i le => ?_⟩
      obtain rfl := Nat.le_zero.mp le
      simp
    obtain ⟨j, eq, all⟩ := ih tail sorted' (Nat.mod_lt _ (by decide)) member
    have next := below _ (all 0 (Nat.zero_le j))
    -- the next element is larger, so the expected number has not wrapped
    have exact_add : add32 a p = a + p := by
      unfold add32 at next ⊢
      omega
    refine ⟨j + 1, by rw [eq, exact_add, Nat.succ_mul]; omega, fun i le => ?_⟩
    cases i with
    | zero => simp
    | succ i =>
      have later := all i (by omega)
      rw [exact_add] at later
      refine List.mem_cons_of_mem a ?_
      rw [Nat.succ_mul]
      convert later using 1
      omega

/-- What the receiver keeps of a message agrees with the packets that have arrived. -/
structure RxSound (cfg : Config) (rx : RxOperation) (checked : List DataPacket) : Prop where
  psn : ∀ q, q ∈ rx.receivedPsn → Seen checked q
  last : rx.receivedLastPsnPacket = true → ∃ q, q ∈ rx.receivedPsn ∧ cfg.size ≤ q + cfg.mtu
  next : cfg.mode ≠ .irn → ∀ b < rx.nextExpectedSeq, Covered checked b

theorem receivedAll_sound {rx : RxOperation} {checked : List DataPacket}
    (R : RxSound cfg rx checked) (h : rx.receivedAll cfg.mtu = true) :
    ∀ q, Aligned cfg q → q ∈ rx.receivedPsn := by
  rintro q ⟨⟨i, rfl⟩, lt⟩
  simp only [RxOperation.receivedAll, Bool.and_eq_true] at h
  obtain ⟨final, member, reach⟩ := R.last h.1
  obtain ⟨j, eq, all⟩ := contiguous_mem h.2 rx.receivedPsn.sorted (by decide) cfg.mtu_lt member
  have le : i ≤ j := by
    by_contra more
    have : (j + 1) * cfg.mtu ≤ i * cfg.mtu := Nat.mul_le_mul_right _ (by omega)
    rw [Nat.succ_mul, Nat.mul_comm i] at this
    omega
  have found := all i le
  rwa [Nat.zero_add, Nat.mul_comm] at found

theorem receivedAll_allReceived {rx : RxOperation} {checked : List DataPacket}
    (R : RxSound cfg rx checked)
    (sound : ∀ pkt ∈ checked, Sound cfg pkt) (h : rx.receivedAll cfg.mtu = true) :
    AllReceived cfg checked :=
  allReceived_of_seen sound fun q aligned => R.psn q (receivedAll_sound R h q aligned)

/-! ### ReceiveUdp -/

/-- What `ReceiveUdp` does: nothing for a finished message; otherwise the packet is checked and
recorded, and answered or not. -/
theorem receiveUdp_cases {r r' : Receiver} {pkt : DataPacket} {expired : Bool}
    {ack : Option AckPacket} (h : r.receiveUdp cfg pkt expired = some (r', ack)) :
    (r.finished = true ∧ r' = r ∧ ack = none) ∨
    (r.finished = false ∧ ∃ rx x nackSeq,
      (r.operation cfg).receiverCheckSeq cfg pkt.seq pkt.payload expired = some (rx, x, nackSeq) ∧
      r'.checked = r.checked ++ [pkt] ∧
      ((r'.msg = some (rx.record pkt) ∧ r'.finished = false ∧ ack = none) ∨
       ∃ done, done = ((rx.record pkt).receivedAll cfg.mtu ||
          (decide (cfg.mode = .irn) && decide (cfg.size ≤ rx.irn.baseSeq))) ∧
        r'.msg = (if done then none else some (rx.record pkt)) ∧ r'.finished = done ∧
        ∃ x', x' = RxOperation.answer cfg x ((rx.record pkt).receivedAll cfg.mtu) ∧
          (x' = .ack ∨ x' = .nack) ∧
          ack = some ((rx.record pkt).ackFor cfg pkt x' nackSeq
            ((rx.record pkt).receivedAll cfg.mtu)))) := by
  unfold Receiver.receiveUdp at h
  split at h
  · rename_i finished
    cases h
    exact .inl ⟨finished, rfl, rfl⟩
  rename_i running
  rw [Bool.not_eq_true] at running
  obtain ⟨⟨rx, x, nackSeq⟩, check, h⟩ := Option.bind_eq_some_iff.mp h
  refine .inr ⟨running, rx, x, nackSeq, check, ?_⟩
  dsimp only at h
  split at h
  · rename_i answered
    cases h
    exact ⟨rfl, .inr ⟨_, rfl, rfl, rfl, _, rfl, answered, rfl⟩⟩
  · cases h
    exact ⟨rfl, .inl ⟨rfl, rfl, rfl⟩⟩

/-! ### ReceiverCheckSeq -/

theorem checkSeq_frame (rx : RxOperation) (seq size : ℕ) (expired : Bool) :
    (rx.checkSeq cfg seq size expired).1.receivedPsn = rx.receivedPsn ∧
      (rx.checkSeq cfg seq size expired).1.receivedLastPsnPacket = rx.receivedLastPsnPacket := by
  unfold RxOperation.checkSeq
  dsimp only
  repeat' split
  all_goals exact ⟨rfl, rfl⟩

/-- The expected number moves over the packet that was expected, or back. -/
theorem checkSeq_next (rx : RxOperation) (seq size : ℕ) (expired : Bool) (b : ℕ)
    (lt : b < (rx.checkSeq cfg seq size expired).1.nextExpectedSeq) :
    b < rx.nextExpectedSeq ∨ (seq ≤ b ∧ b < seq + size) := by
  have wraps : add32 rx.nextExpectedSeq size ≤ rx.nextExpectedSeq + size := Nat.mod_le _ _
  have back : rx.nextExpectedSeq / cfg.chunk * cfg.chunk ≤ rx.nextExpectedSeq :=
    Nat.div_mul_le_self _ _
  unfold RxOperation.checkSeq at lt
  dsimp only at lt
  split at lt
  · rename_i expected
    split at lt <;> (dsimp only at lt; omega)
  · left
    split at lt
    · split at lt
      · dsimp only at lt
        split at lt <;> omega
      · exact lt
    · exact lt

theorem checkSeqIrn_frame {rx rx' : RxOperation} {p seq nackSeq : ℕ} {x : SeqCheck}
    (h : rx.checkSeqIrn p seq = some (rx', x, nackSeq)) :
    rx'.receivedPsn = rx.receivedPsn ∧ rx'.receivedLastPsnPacket = rx.receivedLastPsnPacket := by
  unfold RxOperation.checkSeqIrn at h
  dsimp only at h
  split at h
  · cases h
    exact ⟨rfl, rfl⟩
  · obtain ⟨irn, _, h⟩ := Option.bind_eq_some_iff.mp h
    obtain ⟨rfl, _⟩ := Prod.mk.inj (Option.some.inj h)
    exact ⟨rfl, rfl⟩

theorem receiverCheckSeq_frame {rx rx' : RxOperation} {seq size nackSeq : ℕ} {expired : Bool}
    {x : SeqCheck} (h : rx.receiverCheckSeq cfg seq size expired = some (rx', x, nackSeq)) :
    rx'.receivedPsn = rx.receivedPsn ∧ rx'.receivedLastPsnPacket = rx.receivedLastPsnPacket := by
  unfold RxOperation.receiverCheckSeq at h
  split at h
  · exact checkSeqIrn_frame h
  · cases h
    exact checkSeq_frame rx seq size expired

theorem record_sound {rx rx' : RxOperation} {checked : List DataPacket} {pkt : DataPacket}
    {nackSeq : ℕ}
    {expired : Bool} {x : SeqCheck} (R : RxSound cfg rx checked) (sound : Sound cfg pkt)
    (h : rx.receiverCheckSeq cfg pkt.seq pkt.payload expired = some (rx', x, nackSeq)) :
    RxSound cfg (rx'.record pkt) (checked ++ [pkt]) := by
  obtain ⟨psn, last⟩ := receiverCheckSeq_frame h
  have here : pkt ∈ checked ++ [pkt] := List.mem_append_right _ List.mem_cons_self
  refine ⟨fun q member => ?_, fun flag => ?_, fun mode b lt => ?_⟩
  · rcases OrderedSet.mem_insert.mp member with rfl | old
    · exact ⟨pkt, here, rfl⟩
    · rw [psn] at old
      exact seen_append (R.psn q old) pkt
  · simp only [RxOperation.record, Bool.or_eq_true, last] at flag
    rcases flag with old | new
    · obtain ⟨q, member, reach⟩ := R.last old
      exact ⟨q, OrderedSet.mem_insert.mpr (.inr (by rw [psn]; exact member)), reach⟩
    · exact ⟨pkt.seq, OrderedSet.mem_insert.mpr (.inl rfl), sound.last new⟩
  · unfold RxOperation.receiverCheckSeq at h
    rw [if_neg mode] at h
    cases h
    rcases checkSeq_next rx pkt.seq pkt.payload expired b lt with old | new
    · exact covered_append (R.next mode b old) pkt
    · exact ⟨pkt, here, new⟩

/-! ### The window of the receiver -/

/-- The end of the last packet, were it full. -/
def Config.lastEnd (cfg : Config) : ℕ := (cfg.size + cfg.mtu - 1) / cfg.mtu * cfg.mtu

/-- The sequence numbers of an IRN message, up to the end of a full last packet, fit into 32
bits. -/
def Fits (cfg : Config) : Prop := cfg.mode = .irn → cfg.lastEnd ≤ 2 ^ 32

theorem aligned_lastEnd {q : ℕ} (h : Aligned cfg q) : q + cfg.mtu ≤ cfg.lastEnd := by
  obtain ⟨⟨i, rfl⟩, lt⟩ := h
  have le : i + 1 ≤ (cfg.size + cfg.mtu - 1) / cfg.mtu := by
    rw [Nat.le_div_iff_mul_le cfg.mtu_pos, Nat.succ_mul, Nat.mul_comm i]
    omega
  have := Nat.mul_le_mul_right cfg.mtu le
  rw [Nat.succ_mul, Nat.mul_comm i] at this
  exact this

theorem lastEnd_cases (fits : cfg.lastEnd ≤ 2 ^ 32) : cfg.mtu ∣ 2 ^ 32 ∨ cfg.lastEnd < 2 ^ 32 := by
  rcases fits.lt_or_eq with lt | eq
  · exact .inr lt
  · left
    rw [← eq]
    exact Nat.dvd_mul_left _ _

/-- A loop between multiples of its step visits multiples, and does not wrap. -/
theorem loop32_aligned {p hi fuel i : ℕ} {l : List ℕ} (h : loop32 p hi fuel i = some l)
    (lt : hi < 2 ^ 32) (le : i ≤ hi) (lo_dvd : p ∣ i) (hi_dvd : p ∣ hi) :
    i + l.length * p = hi ∧ ∀ x ∈ l, p ∣ x ∧ x < hi := by
  induction fuel generalizing i l with
  | zero => cases h
  | succ fuel ih =>
    unfold loop32 at h
    split at h
    · rename_i below
      obtain ⟨rest, tail, rfl⟩ := Option.map_eq_some_iff.mp h
      have step : i + p ≤ hi := by
        obtain ⟨a, rfl⟩ := lo_dvd
        obtain ⟨b, rfl⟩ := hi_dvd
        have : a < b := Nat.lt_of_mul_lt_mul_left below
        have := Nat.mul_le_mul_left p (Nat.succ_le_of_lt this)
        rwa [Nat.mul_succ] at this
      have exact_add : add32 i p = i + p := Nat.mod_eq_of_lt (by omega)
      rw [exact_add] at tail
      obtain ⟨eq, all⟩ := ih tail step (Nat.dvd_add lo_dvd (Nat.dvd_refl p))
      refine ⟨by rw [List.length_cons, Nat.succ_mul]; omega, fun x member => ?_⟩
      rcases List.mem_cons.mp member with rfl | member
      · exact ⟨lo_dvd, below⟩
      · exact all x member
    · cases h
      refine ⟨by simp; omega, fun x member => by cases member⟩

theorem loop32_mem {p hi fuel i : ℕ} {l : List ℕ} (h : loop32 p hi fuel i = some l)
    (lt : hi < 2 ^ 32) (lo_dvd : p ∣ i) (hi_dvd : p ∣ hi) : ∀ x ∈ l, p ∣ x ∧ x < hi := by
  rcases Nat.lt_or_ge hi i with beyond | le
  · cases fuel with
    | zero => cases h
    | succ fuel =>
      unfold loop32 at h
      rw [if_neg (by omega)] at h
      cases h
      exact fun x member => by cases member
  · exact (loop32_aligned h lt le lo_dvd hi_dvd).2

/-- Positions of the receiver's window are multiples of the payload, and none lies beyond the
message unless they stay multiples when they wrap. -/
structure RxWindow (cfg : Config) (irn : RxIrn) : Prop where
  aligned : cfg.mtu ∣ irn.baseSeq
  bound : cfg.mtu ∣ 2 ^ 32 ∨ irn.baseSeq + irn.states.length * cfg.mtu ≤ cfg.lastEnd
  known : RxState.undef ∉ irn.states

theorem dvd_add32 {p a : ℕ} (dvd : p ∣ 2 ^ 32) (h : p ∣ a) : p ∣ add32 a p :=
  (Nat.dvd_mod_iff dvd).mpr (Nat.dvd_add h (Nat.dvd_refl p))

theorem rxWindow_drop {states : List RxState} {base : ℕ} (fits : cfg.lastEnd ≤ 2 ^ 32)
    (aligned : cfg.mtu ∣ base) (bound : cfg.mtu ∣ 2 ^ 32 ∨
      base + states.length * cfg.mtu ≤ cfg.lastEnd)
    (known : RxState.undef ∉ states) :
    RxWindow cfg ⟨(RxIrn.dropAcked cfg.mtu states base).1,
      (RxIrn.dropAcked cfg.mtu states base).2⟩ := by
  induction states generalizing base with
  | nil => exact ⟨aligned, bound, known⟩
  | cons state rest ih =>
    cases state with
    | ack =>
      have known' : RxState.undef ∉ rest := fun h => known (List.mem_cons_of_mem _ h)
      rcases bound with wraps | bound
      · exact ih (dvd_add32 wraps aligned) (.inl wraps) known'
      rcases lastEnd_cases fits with wraps | lt
      · exact ih (dvd_add32 wraps aligned) (.inl wraps) known'
      rw [List.length_cons, Nat.succ_mul] at bound
      have exact_add : add32 base cfg.mtu = base + cfg.mtu := Nat.mod_eq_of_lt (by omega)
      unfold RxIrn.dropAcked
      rw [exact_add]
      exact ih (Nat.dvd_add aligned (Nat.dvd_refl _)) (.inr (by omega)) known'
    | nack => exact ⟨aligned, bound, known⟩
    | undef => exact ⟨aligned, bound, known⟩

theorem rxWindow_next {irn : RxIrn} (fits : cfg.lastEnd ≤ 2 ^ 32) (W : RxWindow cfg irn) :
    cfg.mtu ∣ irn.getNextSequenceNumber cfg.mtu := by
  have total : cfg.mtu ∣ irn.baseSeq + irn.states.length * cfg.mtu :=
    Nat.dvd_add W.aligned (Nat.dvd_mul_left _ _)
  unfold RxIrn.getNextSequenceNumber
  rcases lastEnd_cases fits with wraps | lt
  · exact (Nat.dvd_mod_iff wraps).mpr total
  rcases W.bound with wraps | bound
  · exact (Nat.dvd_mod_iff wraps).mpr total
  · rw [Nat.mod_eq_of_lt (by omega)]
    exact total

theorem window_index {p base len seq : ℕ} (lt : seq < (base + len * p) % 2 ^ 32) (ge : base ≤ seq) :
    (seq - base) / p < len := by
  have := Nat.mod_le (base + len * p) (2 ^ 32)
  refine Nat.div_lt_of_lt_mul ?_
  rw [Nat.mul_comm]
  omega

theorem rxState_undef {irn : RxIrn} {seq : ℕ} (W : RxWindow cfg irn)
    (undef : irn.getIrnState cfg.mtu seq = .undef) : irn.getNextSequenceNumber cfg.mtu ≤ seq := by
  by_contra ahead
  unfold RxIrn.getIrnState at undef
  rw [if_neg ahead] at undef
  split at undef
  · rename_i ge
    have lt := window_index (not_le.mp ahead) ge
    rw [List.getD_eq_getElem _ _ lt] at undef
    exact W.known (undef ▸ List.getElem_mem lt)
  · cases undef

theorem rxWindow_update {irn irn' : RxIrn} {seq : ℕ} (fits : cfg.lastEnd ≤ 2 ^ 32)
    (W : RxWindow cfg irn)
    (aligned : Aligned cfg seq) (h : irn.updateIrnState cfg.mtu seq = some irn') :
    RxWindow cfg irn' := by
  unfold RxIrn.updateIrnState at h
  split at h
  · rename_i undef
    obtain ⟨lost, loop, h⟩ := Option.bind_eq_some_iff.mp h
    cases h
    refine rxWindow_drop fits W.aligned ?_ (by simp [W.known])
    rcases W.bound with wraps | bound
    · exact .inl wraps
    rcases lastEnd_cases fits with wraps | lt
    · exact .inl wraps
    right
    have size_lt := cfg.size_lt
    have seq_lt := aligned.2
    obtain ⟨total, _⟩ :=
      loop32_aligned loop (by omega) (rxState_undef W undef) (rxWindow_next fits W) aligned.1
    have exact_next : irn.getNextSequenceNumber cfg.mtu = irn.baseSeq +
        irn.states.length * cfg.mtu :=
      Nat.mod_eq_of_lt (by omega)
    have last := aligned_lastEnd aligned
    simp only [List.length_append, List.length_replicate, List.length_cons, List.length_nil,
      Nat.add_mul]
    omega
  · cases h
    refine rxWindow_drop fits W.aligned ?_ fun member => ?_
    · rw [List.length_set]
      exact W.bound
    · rcases List.mem_or_eq_of_mem_set member with old | new
      · exact W.known old
      · cases new
  · cases h
    exact rxWindow_drop fits W.aligned W.bound W.known

theorem checkSeqIrn_window {rx rx' : RxOperation} {seq nackSeq : ℕ} {x : SeqCheck}
    (fits : cfg.lastEnd ≤ 2 ^ 32) (W : RxWindow cfg rx.irn) (aligned : Aligned cfg seq)
    (h : rx.checkSeqIrn cfg.mtu seq = some (rx', x, nackSeq)) : RxWindow cfg rx'.irn ∧
    cfg.mtu ∣ nackSeq := by
  unfold RxOperation.checkSeqIrn at h
  dsimp only at h
  split at h
  · cases h
    exact ⟨W, Nat.dvd_zero _⟩
  · obtain ⟨irn, update, h⟩ := Option.bind_eq_some_iff.mp h
    obtain ⟨rfl, answer⟩ := Prod.mk.inj (Option.some.inj h)
    refine ⟨rxWindow_update fits W aligned update, ?_⟩
    split at answer <;> obtain ⟨_, rfl⟩ := Prod.mk.inj answer
    · exact Nat.dvd_zero _
    · exact rxWindow_next fits W

/-! ### Acknowledgements -/

/-- What holds of every acknowledgement that was sent. -/
structure AckSound (cfg : Config) (checked : List DataPacket) (ack : AckPacket) : Prop where
  last : ack.last = true → AllReceived cfg checked
  next : cfg.mode = .goBackN → ∀ b < ack.seq, Covered checked b
  seen : cfg.mode = .irn → Seen checked ack.seq
  nackSeq : cfg.mode = .irn → cfg.mtu ∣ ack.nackSeq

theorem ackSound_append {checked : List DataPacket} {ack : AckPacket} (h : AckSound cfg checked ack)
    (pkt : DataPacket) : AckSound cfg (checked ++ [pkt]) ack where
  last flag := allReceived_append (h.last flag) pkt
  next mode b lt := covered_append (h.next mode b lt) pkt
  seen mode := seen_append (h.seen mode) pkt
  nackSeq := h.nackSeq

structure RcvSound (cfg : Config) (r : Receiver) : Prop where
  checked : ∀ pkt ∈ r.checked, Sound cfg pkt
  rx : RxSound cfg (r.operation cfg) r.checked
  window : cfg.mode = .irn → RxWindow cfg (r.operation cfg).irn

theorem fresh_sound (cfg : Config) (checked : List DataPacket) :
    RxSound cfg { milestoneRx := cfg.ackInterval } checked where
  psn q member := absurd member (OrderedSet.not_mem_empty q)
  last flag := by cases flag
  next _ b lt := absurd lt (Nat.not_lt_zero b)

theorem fresh_window (cfg : Config) : RxWindow cfg {} where
  aligned := Nat.dvd_zero _
  bound := .inr (by simp)
  known := List.not_mem_nil

theorem ackFor_sound {rx : RxOperation} {checked : List DataPacket} {pkt : DataPacket}
    {x : SeqCheck}
    {nackSeq : ℕ} (R : RxSound cfg rx checked) (sound : ∀ pkt ∈ checked, Sound cfg pkt)
    (here : pkt ∈ checked) (nack : cfg.mode = .irn → cfg.mtu ∣ nackSeq) :
    AckSound cfg checked (rx.ackFor cfg pkt x nackSeq (rx.receivedAll cfg.mtu)) := by
  have all := receivedAll_allReceived R sound
  unfold RxOperation.ackFor
  split
  · rename_i sack
    refine ⟨all, fun mode => ?_, fun _ => ⟨pkt, here, rfl⟩, nack⟩
    rw [sack.1] at mode
    cases mode
  · refine ⟨all, fun mode => ?_, fun mode => ?_, fun _ => Nat.dvd_zero _⟩
    · simp only [mode, if_true]
      exact R.next (by simp [mode])
    · simp only [mode]
      exact ⟨pkt, here, rfl⟩

theorem receiveUdp_sound {r r' : Receiver} {pkt : DataPacket} {expired : Bool}
    {ack : Option AckPacket} (fits : Fits cfg) (R : RcvSound cfg r) (sound : Sound cfg pkt)
    (h : r.receiveUdp cfg pkt expired = some (r', ack)) :
    RcvSound cfg r' ∧ (r'.checked = r.checked ∨ r'.checked = r.checked ++ [pkt]) ∧
      ∀ a ∈ ack, AckSound cfg r'.checked a := by
  rcases receiveUdp_cases h with ⟨_, rfl, rfl⟩ | ⟨_, rx, x, nackSeq, check, checked, outcome⟩
  · exact ⟨R, .inl rfl, fun a none => by cases none⟩
  have all_sound : ∀ x ∈ r'.checked, Sound cfg x := by
    intro x member
    rw [checked] at member
    rcases List.mem_append.mp member with old | new
    · exact R.checked x old
    · rw [List.mem_singleton.mp new]
      exact sound
  have recorded : RxSound cfg (rx.record pkt) r'.checked := by
    rw [checked]
    exact record_sound R.rx sound check
  have window : cfg.mode = .irn → RxWindow cfg rx.irn ∧ cfg.mtu ∣ nackSeq := by
    intro mode
    unfold RxOperation.receiverCheckSeq at check
    rw [if_pos mode] at check
    exact checkSeqIrn_window (fits mode) (R.window mode) ⟨sound.aligned mode, sound.seq_lt⟩ check
  have here : pkt ∈ r'.checked := by
    rw [checked]
    exact List.mem_append_right _ List.mem_cons_self
  rcases outcome with ⟨msg, _, rfl⟩ | ⟨done, _, msg, _, x', _, _, rfl⟩
  · have operation : r'.operation cfg = rx.record pkt := by simp [Receiver.operation, msg]
    refine ⟨⟨all_sound, by rw [operation]; exact recorded, fun mode => ?_⟩, .inr checked, fun a none => by cases none⟩
    rw [operation]
    exact (window mode).1
  · refine ⟨⟨all_sound, ?_, fun mode => ?_⟩, .inr checked, fun a eq => ?_⟩
    · cases done with
      | true => simpa [Receiver.operation, msg] using fresh_sound cfg r'.checked
      | false => simpa [Receiver.operation, msg] using recorded
    · cases done with
      | true => simpa [Receiver.operation, msg] using fresh_window cfg
      | false =>
        have operation : r'.operation cfg = rx.record pkt := by simp [Receiver.operation, msg]
        rw [operation]
        exact (window mode).1
    · obtain rfl := Option.mem_some_iff.mp eq
      exact ackFor_sound recorded all_sound here fun mode => (window mode).2

end Rdma

end Pyrrha

import Pyrrha.Rdma.Tracked

/-!
The window of a queue pair against the bytes in flight. Go-back-N and dis-order count bytes; the
window of an IRN message counts packets, and only some windows hold it to their bytes.
-/

namespace Pyrrha
open Lib

namespace Rdma

variable {cfg : Config}

/-- Whether byte `b` of the message is sent, not acknowledged and not to be sent again. -/
def inFlight (cfg : Config) (m : SndOperation) (b : ℕ) : Bool :=
  match cfg.mode with
  | .goBackN => decide (m.sndUna ≤ b) && decide (b < m.sndNxt)
  | .disOrder => m.sentPsn.elems.any fun q =>
      decide (q ∉ m.timeoutPsn) && decide (q ≤ b) && decide (b < q + cfg.mtu)
  | .irn =>
    let q := b / cfg.mtu * cfg.mtu
    decide (b < m.sndNxt) && decide (m.irn.getIrnState cfg.mtu q = .unack) &&
      decide (q ∉ m.irn.rtxSeqQueues)

/-- The bytes of the message in flight. -/
def flight (cfg : Config) (m : SndOperation) : Finset ℕ := (Finset.range cfg.size).filter fun b =>
    inFlight cfg m b = true

/-! ### Go-back-N -/

/-- In go-back-N the counters of the sender, and what acknowledgements report, stay far below
2^64. -/
structure Bounded (cfg : Config) (s : Session) : Prop where
  nxt : s.snd.msg.sndNxt < 2 ^ 33
  una : s.snd.msg.sndUna < 2 ^ 32
  next : (s.rcv.operation cfg).nextExpectedSeq < 2 ^ 32
  acks : ∀ ack ∈ s.acks, ack.seq < 2 ^ 32

theorem sentPayload_lt (seq : ℕ) : cfg.sentPayload seq < 2 ^ 32 := by
  unfold Config.sentPayload
  split
  · exact Nat.mod_lt _ (by decide)
  · exact cfg.mtu_lt

theorem bounded_move {s : Session} {t : Sender} {ev : Event} (mode : cfg.mode = .goBackN)
    (B : Bounded cfg s)
    (move : Move cfg s ev t) : t.msg.sndNxt < 2 ^ 33 ∧ t.msg.sndUna < 2 ^ 32 := by
  have other : cfg.mode ≠ .irn := by simp [mode]
  have plain : (s.snd.shouldSndData cfg).1 = s.snd := shouldSndData_plain other
  have recover : ∀ m : SndOperation, m.sndNxt < 2 ^ 33 ∧ m.sndUna < 2 ^ 32 →
      (m.recover cfg).sndNxt < 2 ^ 33 ∧ (m.recover cfg).sndUna < 2 ^ 32 := by
    intro m small
    have back : (m.recover cfg).sndNxt = m.sndUna := if_neg (by simp [mode])
    have kept : (m.recover cfg).sndUna = m.sndUna := rfl
    rw [back, kept]
    omega
  have nxt := B.nxt
  have una := B.una
  cases move with
  | held stays =>
    rw [plain]
    exact ⟨nxt, una⟩
  | @sent u _ pkt ready sent =>
    have below := shouldSndData_left mode (by rw [ready])
    have size_lt := cfg.size_lt
    rw [ready] at plain
    obtain rfl : u = s.snd := plain
    have picked : s.snd.msg.nextPsn cfg = some (s.snd.msg.sndNxt % 2 ^ 32, s.snd.msg) :=
      if_pos (by simp [mode])
    obtain ⟨t', pkt', sent', -, -, msg⟩ := getNxtPacket_psn other picked
    rw [sent] at sent'
    cases sent'
    have payload := @sentPayload_lt cfg (s.snd.msg.sndNxt % 2 ^ 32)
    rw [msg]
    refine ⟨?_, una⟩
    dsimp only
    split <;> omega
  | recovered =>
    unfold Sender.recoverMSG
    split
    · exact ⟨nxt, una⟩
    · exact recover _ ⟨nxt, una⟩
  | timer armed =>
    obtain ⟨sameNxt, sameUna⟩ := irnTimerHandler_counters cfg s.snd _
    rw [sameNxt, sameUna]
    exact ⟨nxt, una⟩
  | @acked k ack _ here received =>
    have seq := B.acks ack (List.mem_of_getElem? here)
    have le : cfg.ackedSeq ack.seq ≤ ack.seq := by
      unfold Config.ackedSeq
      split
      · exact Nat.div_mul_le_self _ _
      · exact le_refl _
    refine receive_keeps (P := fun m => m.sndNxt < 2 ^ 33 ∧ m.sndUna < 2 ^ 32) other
      (fun _ => ⟨nxt, una⟩) (fun _ => ?_) (fun _ _ => recover) received
    unfold SndOperation.acknowledge
    rw [if_neg (by simp [mode])]
    split
    · exact ⟨nxt, by dsimp only; omega⟩
    · exact ⟨nxt, una⟩
  | kept => exact ⟨nxt, una⟩

theorem checkSeq_bounded {rx : RxOperation} {seq size : ℕ} {expired : Bool}
    (next : rx.nextExpectedSeq < 2 ^ 32) :
    (rx.checkSeq cfg seq size expired).1.nextExpectedSeq < 2 ^ 32 := by
  have wraps : add32 rx.nextExpectedSeq size < 2 ^ 32 := Nat.mod_lt _ (by decide)
  have back : rx.nextExpectedSeq / cfg.chunk * cfg.chunk ≤ rx.nextExpectedSeq :=
    Nat.div_mul_le_self _ _
  unfold RxOperation.checkSeq
  dsimp only
  split
  · split <;> exact wraps
  split
  · split
    · dsimp only
      split
      · exact back.trans_lt next
      · exact next
    · exact next
  · exact next

theorem operation_bounded {r r' : Receiver} {pkt : DataPacket} {expired : Bool}
    {ack : Option AckPacket}
    (mode : cfg.mode = .goBackN) (next : (r.operation cfg).nextExpectedSeq < 2 ^ 32)
    (h : r.receiveUdp cfg pkt expired = some (r', ack)) :
    (r'.operation cfg).nextExpectedSeq < 2 ^ 32 ∧ ∀ a ∈ ack, a.seq < 2 ^ 32 := by
  rcases receiveUdp_cases h with ⟨-, rfl, rfl⟩ | ⟨-, rx, x, nackSeq, check, -, outcome⟩
  · exact ⟨next, fun _ => nofun⟩
  have other : ¬cfg.mode = .irn := by simp [mode]
  have checked : rx.nextExpectedSeq < 2 ^ 32 := by
    unfold RxOperation.receiverCheckSeq at check
    rw [if_neg other] at check
    cases check
    exact checkSeq_bounded next
  rcases outcome with ⟨msg, -, rfl⟩ | ⟨done, -, msg, -, x', -, -, rfl⟩
  · refine ⟨?_, fun _ => nofun⟩
    simpa [Receiver.operation, msg, RxOperation.record] using checked
  · refine ⟨?_, fun a same => ?_⟩
    · cases done with
      | true => simp [Receiver.operation, msg]
      | false => simpa [Receiver.operation, msg, RxOperation.record] using checked
    · obtain rfl := Option.mem_some_iff.mp same
      unfold RxOperation.ackFor
      rw [if_neg (by simp [mode])]
      dsimp only
      rw [if_pos mode]
      exact checked

theorem bounded_reachable {allowed : Session → Event → Prop} {s : Session}
    (mode : cfg.mode = .goBackN) (reach : Session.Reachable cfg allowed s) : Bounded cfg s := by
  induction reach with
  | initial => exact ⟨by decide, by decide, Nat.two_pow_pos 32, fun _ => nofun⟩
  | @step s t ev _ _ h B =>
    obtain ⟨nxt, una⟩ := bounded_move mode B (step_move h)
    cases step_travel h with
    | carried rcv data acks =>
        exact ⟨nxt, una, rcv ▸ B.next, fun ack member => B.acks ack (acks member)⟩
    | sent ready sent rcv data acks =>
      refine ⟨nxt, una, rcv ▸ B.next, ?_⟩
      rw [acks]
      exact B.acks
    | @arrived pkt _ expired ack arrives receive data acks =>
      obtain ⟨next, answered⟩ := operation_bounded mode B.next receive
      refine ⟨nxt, una, next, fun a member => ?_⟩
      rw [acks] at member
      rcases List.mem_append.mp member with old | new
      · exact B.acks a old
      · exact answered a (by simpa using new)

theorem goBackN_flight {m : SndOperation} {bytes : ℕ} (mode : cfg.mode = .goBackN)
    (nxt : m.sndNxt < 2 ^ 33) (una : m.sndUna < 2 ^ 32) (h : m.getOnTheFly cfg = some bytes) :
    (flight cfg m).card ≤ bytes := by
  have sub : flight cfg m ⊆ Finset.Ico m.sndUna m.sndNxt := by
    intro b member
    obtain ⟨-, flying⟩ := Finset.mem_filter.mp member
    unfold inFlight at flying
    simp only [mode, Bool.and_eq_true, decide_eq_true_eq] at flying
    exact Finset.mem_Ico.mpr flying
  have most := Finset.card_le_card sub
  rw [Nat.card_Ico] at most
  unfold SndOperation.getOnTheFly at h
  simp only [mode, Option.some.injEq] at h
  omega

/-! ### Dis-order -/

theorem flight_disOrder {m : SndOperation} (mode : cfg.mode = .disOrder) :
    (flight cfg m).card ≤ ∑ q ∈ m.sentPsn.toFinset \ m.timeoutPsn.toFinset, cfg.counted q := by
  have sub : flight cfg m ⊆ (m.sentPsn.toFinset \ m.timeoutPsn.toFinset).biUnion cfg.bytesOf := by
    intro b member
    obtain ⟨inside, flying⟩ := Finset.mem_filter.mp member
    unfold inFlight at flying
    simp only [mode, List.any_eq_true, Bool.and_eq_true, decide_eq_true_eq] at flying
    obtain ⟨q, sent, ⟨out, ge⟩, lt⟩ := flying
    refine Finset.mem_biUnion.mpr ⟨q, ?_, mem_bytesOf.mpr ⟨ge, lt, Finset.mem_range.mp inside⟩⟩
    rw [Finset.mem_sdiff, OrderedSet.mem_toFinset, OrderedSet.mem_toFinset]
    exact ⟨sent, out⟩
  refine (Finset.card_le_card sub).trans
    (Finset.card_biUnion_le.trans (Finset.sum_le_sum fun q _ => ?_))
  rw [card_bytesOf]
  exact payloadAt_le_counted q

theorem counted_le (q : ℕ) : cfg.counted q ≤ cfg.mtu := by
  unfold Config.counted
  split
  · exact (Nat.mod_lt _ cfg.mtu_pos).le
  · exact le_refl _

theorem sum_counted_le {X : Finset ℕ} (aligned : ∀ q ∈ X, Aligned cfg q) :
    ∑ q ∈ X, cfg.counted q ≤ cfg.size := by
  rw [Finset.sum_congr rfl fun q member => counted_aligned (aligned q member)]
  exact sum_payloadAt_le fun q member => (aligned q member).1

theorem sum_parts {m : SndOperation} (T : Tracked cfg m) :
    ∑ q ∈ m.sentPsn.toFinset \ m.timeoutPsn.toFinset, cfg.counted q + ∑ q ∈ m.timeoutPsn.toFinset,
      cfg.counted q = ∑ q ∈ m.sentPsn.toFinset, cfg.counted q :=
  Finset.sum_sdiff fun q member =>
    OrderedSet.mem_toFinset.mpr (T.sub q (OrderedSet.mem_toFinset.mp member))

/-- With the stray sequence number all packets together can count 2^32 bytes or more. The rest
beyond 2^32 is less than what is to be sent again counts. -/
theorem wrapped_counts {m : SndOperation} (T : Tracked cfg m) (wraps : 2 ^ 32 ≤ m.sndNxt)
    (some_timeout : m.timeoutPsn.elems ≠ []) :
    let all := ∑ q ∈ m.sentPsn.toFinset, cfg.counted q
    let again := ∑ q ∈ m.timeoutPsn.toFinset, cfg.counted q
    all < 2 ^ 33 ∧ (2 ^ 32 ≤ all → all - 2 ^ 32 < again) := by
  intro all again
  have size_lt := cfg.size_lt
  have mtu_lt := cfg.mtu_lt
  have nxt : m.sndNxt = cfg.lastEnd := by
    rcases T.whole with aligned | ends | ⟨-, nxt⟩
    · have lt := aligned.2
      omega
    · omega
    · exact nxt
  have short := lastEnd_lt cfg
  have ends := @lastEnd_start cfg (by omega)
  have stray := @counted_le cfg (m.sndNxt - 2 ^ 32)
  have most : all ≤ cfg.size + cfg.mtu := by
    have others : ∑ q ∈ m.sentPsn.toFinset.erase (m.sndNxt - 2 ^ 32), cfg.counted q ≤ cfg.size := by
      refine sum_counted_le fun q member => ?_
      obtain ⟨other, inside⟩ := Finset.mem_erase.mp member
      rcases T.sent q (OrderedSet.mem_toFinset.mp inside) with ⟨aligned, -⟩ | ⟨-, same⟩
      · exact aligned
      · exact absurd same other
    by_cases found : m.sndNxt - 2 ^ 32 ∈ m.sentPsn.toFinset
    · have split := Finset.add_sum_erase m.sentPsn.toFinset cfg.counted found
      omega
    · rw [Finset.erase_eq_of_notMem found] at others
      omega
  refine ⟨by omega, fun above => ?_⟩
  obtain ⟨first, rest, elems⟩ := List.exists_cons_of_ne_nil some_timeout
  have member : first ∈ m.timeoutPsn := by
    rw [OrderedSet.mem_def, elems]
    exact List.mem_cons_self
  by_cases last : cfg.lastStart ∈ m.timeoutPsn
  · -- then only the stray packet is in flight
    have only : m.sentPsn.toFinset \ m.timeoutPsn.toFinset ⊆ {m.sndNxt - 2 ^ 32} := by
      intro q inside
      rw [Finset.mem_sdiff, OrderedSet.mem_toFinset, OrderedSet.mem_toFinset] at inside
      exact Finset.mem_singleton.mpr ((T.stuck wraps last q inside.1).resolve_left inside.2)
    have flying := Finset.sum_le_sum_of_subset (f := cfg.counted) only
    rw [Finset.sum_singleton] at flying
    have parts := sum_parts T
    omega
  · have full : cfg.counted first = cfg.mtu := by
      unfold Config.counted
      refine if_neg fun short => last ?_
      rw [← short.2]
      exact member
    have part : cfg.counted first ≤ again :=
      Finset.single_le_sum (fun _ _ => Nat.zero_le _) (OrderedSet.mem_toFinset.mpr member)
    omega

theorem disOrder_flight {m : SndOperation} {bytes : ℕ} (mode : cfg.mode = .disOrder)
    (T : Tracked cfg m)
    (ready : Ready cfg m) (h : m.getOnTheFly cfg = some bytes) : (flight cfg m).card ≤ bytes := by
  refine (flight_disOrder mode).trans ?_
  have parts := sum_parts T
  have size_lt := cfg.size_lt
  unfold SndOperation.getOnTheFly at h
  rw [mode] at h
  dsimp only at h
  rw [psnBytes_counted, psnBytes_counted] at h
  rcases Nat.lt_or_ge m.sndNxt (2 ^ 32) with small | wraps
  · have most : ∑ q ∈ m.sentPsn.toFinset, cfg.counted q ≤ cfg.size := by
      refine sum_counted_le fun q member => ?_
      rcases T.sent q (OrderedSet.mem_toFinset.mp member) with ⟨aligned, -⟩ | ⟨beyond, -⟩
      · exact aligned
      · omega
    split at h
    · split at h
      · cases h
      · cases h
        omega
    · cases h
      omega
  · obtain ⟨timeouted, some_timeout⟩ := (ready.disOrder mode).resolve_left (by omega)
    obtain ⟨most, above⟩ := wrapped_counts T wraps some_timeout
    rw [if_pos timeouted] at h
    split at h
    · cases h
    · cases h
      omega

/-! ### IRN -/

theorem inFlight_irn {m : SndOperation} {b : ℕ} (mode : cfg.mode = .irn)
    (flying : inFlight cfg m b = true) :
    b < m.sndNxt ∧ m.irn.getIrnState cfg.mtu (b / cfg.mtu * cfg.mtu) = .unack ∧
      b / cfg.mtu * cfg.mtu ∉ m.irn.rtxSeqQueues := by
  unfold inFlight at flying
  simp only [mode, Bool.and_eq_true, decide_eq_true_eq, and_assoc] at flying
  exact flying

/-- The position of a packet that is not acknowledged, and what the window says about it. -/
theorem unack_position {irn : SndIrn} {q : ℕ} (unack : irn.getIrnState cfg.mtu q = .unack) :
    irn.baseSeq ≤ q ∧ irn.index cfg.mtu q < irn.states.length ∧
      irn.getIrnState cfg.mtu ((irn.baseSeq + irn.index cfg.mtu q * cfg.mtu) % 2 ^ 32) =
        .unack := by
  have pos := cfg.mtu_pos
  unfold SndIrn.getIrnState at unack
  split at unack
  · cases unack
  rename_i ahead
  split at unack
  · rename_i ge
    have below : irn.index cfg.mtu q * cfg.mtu ≤ q - irn.baseSeq := Nat.div_mul_le_self _ _
    have wraps : irn.getNextSequenceNumber cfg.mtu < 2 ^ 32 := Nat.mod_lt _ (by decide)
    have seq : (irn.baseSeq + irn.index cfg.mtu q * cfg.mtu) % 2 ^ 32 = irn.baseSeq +
        irn.index cfg.mtu q * cfg.mtu :=
      Nat.mod_eq_of_lt (by omega)
    have same : irn.index cfg.mtu (irn.baseSeq + irn.index cfg.mtu q * cfg.mtu) =
        irn.index cfg.mtu q := by
      unfold SndIrn.index
      rw [Nat.add_sub_cancel_left, Nat.mul_div_cancel _ pos]
    refine ⟨ge, window_index (not_le.mp ahead) ge, ?_⟩
    unfold SndIrn.getIrnState
    rw [seq, if_neg (by omega), if_pos (Nat.le_add_right _ _), same]
    exact unack
  · cases unack

/-- Packets at different multiples of the payload have different positions. -/
theorem position_inj {irn : SndIrn} {q r : ℕ} (hq : cfg.mtu ∣ q) (hr : cfg.mtu ∣ r)
    (baseQ : irn.baseSeq ≤ q)
    (baseR : irn.baseSeq ≤ r) (same : irn.index cfg.mtu q = irn.index cfg.mtu r) : q = r := by
  have pos := cfg.mtu_pos
  have splitQ := Nat.div_add_mod (q - irn.baseSeq) cfg.mtu
  have splitR := Nat.div_add_mod (r - irn.baseSeq) cfg.mtu
  have restQ := Nat.mod_lt (q - irn.baseSeq) pos
  have restR := Nat.mod_lt (r - irn.baseSeq) pos
  unfold SndIrn.index at same
  rw [same] at splitQ
  rcases Nat.le_total q r with le | le
  · have zero := Nat.eq_zero_of_dvd_of_lt (Nat.dvd_sub hr hq) (by omega)
    omega
  · have zero := Nat.eq_zero_of_dvd_of_lt (Nat.dvd_sub hq hr) (by omega)
    omega

theorem unack_card (state : ℕ → SndState) (left : ℕ → Bool) (n : ℕ)
    (kept : ∀ i, state i = .unack → left i = false) :
    ((Finset.range n).filter fun i => state i = .unack).card ≤ n - (List.range n).countP left := by
  have flying : ((Finset.range n).filter fun i => state i = .unack).card =
      (List.range n).countP fun i => decide (state i = .unack) := by
    rw [List.countP_eq_length_filter]
    rfl
  have apart : (List.range n).countP (fun i => decide (state i = .unack)) ≤
      (List.range n).countP fun i => ! left i := by
    refine List.countP_mono_left fun i _ unack => ?_
    rw [kept i (of_decide_eq_true unack), Bool.not_false]
  have total := List.length_eq_countP_add_countP left (l := List.range n)
  rw [List.length_range] at total
  simp only [Bool.not_eq_true, Bool.decide_eq_false] at total
  omega

theorem getOnTheFly_card (irn : SndIrn) (p : ℕ) : ((Finset.range irn.states.length).filter fun i =>
    irn.getIrnState p ((irn.baseSeq + i * p) % 2 ^ 32) = .unack).card ≤ irn.getOnTheFly p := by
  refine unack_card (fun i => irn.getIrnState p ((irn.baseSeq + i * p) % 2 ^ 32)) _ _ fun i unack =>
    ?_
  simp only [unack]

theorem irn_flight {m : SndOperation} (mode : cfg.mode = .irn) :
    (flight cfg m).card ≤ cfg.mtu * m.irn.getOnTheFly cfg.mtu := by
  have pos := cfg.mtu_pos
  let place (b : ℕ) : ℕ := m.irn.index cfg.mtu (b / cfg.mtu * cfg.mtu)
  have fibres : ∀ i ∈ (flight cfg m).image place,
      ((flight cfg m).filter fun b => place b = i).card ≤ cfg.mtu := by
    intro i member
    obtain ⟨b, flying, rfl⟩ := Finset.mem_image.mp member
    have unackB := (inFlight_irn mode (Finset.mem_filter.mp flying).2).2.1
    have sub : (flight cfg m).filter (fun x => place x = place b) ⊆
        Finset.Ico (b / cfg.mtu * cfg.mtu) (b / cfg.mtu * cfg.mtu + cfg.mtu) := by
      intro x inside
      obtain ⟨flies, same⟩ := Finset.mem_filter.mp inside
      have unackX := (inFlight_irn mode (Finset.mem_filter.mp flies).2).2.1
      have start :=
        position_inj (Nat.dvd_mul_left _ _) (Nat.dvd_mul_left _ _) (unack_position unackX).1
        (unack_position unackB).1 same
      have split := Nat.div_add_mod x cfg.mtu
      have rest := Nat.mod_lt x pos
      rw [Nat.mul_comm] at split
      rw [Finset.mem_Ico]
      omega
    have most := Finset.card_le_card sub
    rwa [Nat.card_Ico, Nat.add_sub_cancel_left] at most
  have counted : ((flight cfg m).image place).card ≤ m.irn.getOnTheFly cfg.mtu := by
    refine (Finset.card_le_card fun i member => ?_).trans (getOnTheFly_card m.irn cfg.mtu)
    obtain ⟨b, flying, rfl⟩ := Finset.mem_image.mp member
    obtain ⟨-, inside, unack⟩ :=
      unack_position (inFlight_irn mode (Finset.mem_filter.mp flying).2).2.1
    exact Finset.mem_filter.mpr ⟨Finset.mem_range.mpr inside, unack⟩
  exact (Finset.card_le_mul_card_image _ _ fibres).trans (Nat.mul_le_mul_left _ counted)

/-- A window holds the packets of an IRN message to its bytes if it is one byte, or packets are, or
it is larger than what is before the last packet. -/
def Config.WindowExact (cfg : Config) (w : ℕ) : Prop :=
  cfg.mode = .irn → w = 1 ∨ cfg.mtu = 1 ∨ cfg.lastEnd < 2 ^ 32 ∧ cfg.lastStart < w

/-- When an IRN message has a packet to send, not all packets are in flight. -/
theorem irn_flight_left {m : SndOperation} (mode : cfg.mode = .irn) (ready : Ready cfg m)
    (rtx : ∀ q ∈ m.irn.rtxSeqQueues, Aligned cfg q) (next : cfg.mtu ∣ m.sndNxt ∨
      cfg.size ≤ m.sndNxt) :
    (flight cfg m).card ≤ cfg.lastStart := by
  obtain ⟨q, aligned, grounded⟩ : ∃ q, Aligned cfg q ∧
      ∀ b ∈ cfg.bytesOf q, inFlight cfg m b = false := by
    cases queue : m.irn.rtxSeqQueues with
    | nil =>
      have below := ready.irn mode queue
      refine ⟨m.sndNxt, ⟨next.resolve_right (not_le.mpr below), below⟩, fun b inside => ?_⟩
      by_contra flying
      have lt := (inFlight_irn mode (Bool.eq_true_of_not_eq_false flying)).1
      have ge := (mem_bytesOf.mp inside).1
      omega
    | cons q rest =>
      have member : q ∈ m.irn.rtxSeqQueues := by
        rw [queue]
        exact List.mem_cons_self
      have aligned := rtx q member
      refine ⟨q, aligned, fun b inside => ?_⟩
      by_contra flying
      refine (inFlight_irn mode (Bool.eq_true_of_not_eq_false flying)).2.2 ?_
      obtain ⟨ge, lt, -⟩ := mem_bytesOf.mp inside
      obtain ⟨i, rfl⟩ := aligned.1
      have start : b / cfg.mtu = i := by
        refine Nat.div_eq_of_lt_le ?_ ?_
        · rw [Nat.mul_comm]
          exact ge
        · rw [Nat.succ_mul, Nat.mul_comm i]
          exact lt
      rw [start, Nat.mul_comm]
      exact member
  have sub : flight cfg m ⊆ Finset.range cfg.size \ cfg.bytesOf q := by
    intro b member
    obtain ⟨inside, flying⟩ := Finset.mem_filter.mp member
    refine Finset.mem_sdiff.mpr ⟨inside, fun own => ?_⟩
    rw [grounded b own] at flying
    cases flying
  have own : cfg.bytesOf q ⊆ Finset.range cfg.size :=
    fun b inside => Finset.mem_range.mpr (mem_bytesOf.mp inside).2.2
  have most := Finset.card_le_card sub
  rw [Finset.card_sdiff_of_subset own, Finset.card_range, card_bytesOf] at most
  have lt := aligned.2
  have last := @lastEnd_start cfg (by omega)
  have ends := aligned_lastEnd aligned
  have fullEnd : cfg.size ≤ cfg.lastEnd := by
    have pos := cfg.mtu_pos
    have split := Nat.div_add_mod (cfg.size + cfg.mtu - 1) cfg.mtu
    have rest := Nat.mod_lt (cfg.size + cfg.mtu - 1) pos
    rw [Nat.mul_comm] at split
    unfold Config.lastEnd
    omega
  unfold Config.payloadAt at most
  omega

/-! ### Every mode -/

theorem getWin_pos {win rate maxRate : ℕ} {varWin : Bool} (limited : 0 < win) :
    0 < getWin win varWin rate maxRate := by
  unfold getWin
  split
  · omega
  split
  · dsimp only
    split
    · exact Nat.one_pos
    · rename_i some_bytes
      exact Nat.pos_of_ne_zero some_bytes
  · exact limited

theorem admits_flight {s u : Sender} {w : ℕ} (some_window : 0 < w)
    (admitted : s.admits cfg true w = some (u, true)) :
    s.shouldSndData cfg = (u, true) ∧ ∃ bytes < w, u.msg.getOnTheFly cfg = some bytes := by
  unfold Sender.admits at admitted
  split at admitted
  · cases admitted
  · rename_i v ready
    obtain ⟨bytes, counted, same⟩ := Option.map_eq_some_iff.mp admitted
    obtain ⟨rfl, free⟩ := Prod.mk.inj same
    refine ⟨ready, bytes, ?_, counted⟩
    by_contra full
    have bound : isWinBound true w bytes = true := by
      unfold isWinBound
      rw [decide_eq_true (Nat.ne_of_gt some_window), decide_eq_true (not_lt.mp full)]
      rfl
    rw [bound] at free
    cases free

/-- Whenever `ShouldSndData` admits a queue pair with a window, fewer bytes than its window are in
flight. -/
theorem window_limit {s : Session} {u : Sender} {win rate maxRate : ℕ} {varWin : Bool}
    (limited : 0 < win)
    (fitting : cfg.WindowExact (getWin win varWin rate maxRate)) (reach : Session.Reaches cfg s)
    (admitted : s.snd.admits cfg true (getWin win varWin rate maxRate) = some (u, true)) :
    (flight cfg u.msg).card < getWin win varWin rate maxRate := by
  obtain ⟨ready, bytes, lt, counted⟩ := admits_flight (getWin_pos limited) admitted
  cases mode : cfg.mode with
  | goBackN =>
    have plain : (s.snd.shouldSndData cfg).1 = s.snd := shouldSndData_plain (by simp [mode])
    have B := bounded_reachable mode reach
    rw [ready] at plain
    obtain rfl : u = s.snd := plain
    exact (goBackN_flight mode B.nxt B.una counted).trans_lt lt
  | disOrder =>
    have plain : (s.snd.shouldSndData cfg).1 = s.snd := shouldSndData_plain (by simp [mode])
    have T := tracked_reachable mode reach
    rw [ready] at plain
    obtain rfl : u = s.snd := plain
    exact (disOrder_flight mode T (shouldSndData_ready ready) counted).trans_lt lt
  | irn =>
    have packets := @irn_flight cfg u.msg mode
    unfold SndOperation.getOnTheFly at counted
    simp only [mode, Option.some.injEq] at counted
    rw [counted] at packets
    rcases fitting mode with one | small | ⟨fits, large⟩
    · have none : bytes = 0 := by omega
      rw [none, Nat.mul_zero] at packets
      omega
    · rw [small, Nat.one_mul] at packets
      omega
    · have S := (shouldSndData_sound (reachable_small fits reach).snd).1
      rw [ready] at S
      exact (irn_flight_left mode (shouldSndData_ready ready) (S.window mode).rtx
        (S.next mode).1).trans_lt large

theorem window_limit_last : ∃ s u, Session.Reaches (Session.smallConfig .irn 25) s ∧
    s.snd.admits (Session.smallConfig .irn 25) true 21 = some (u, true) ∧
    (flight (Session.smallConfig .irn 25) u.msg).card < getWin 21 false 0 0 := by
  have ends : ∃ s, Session.run (Session.smallConfig .irn 25) (fun _ _ => True) {}
    [.send true, .send true] = some s ∧
      ∃ u, s.snd.admits (Session.smallConfig .irn 25) true 21 = some (u, true) :=
    ⟨_, rfl, _, rfl⟩
  obtain ⟨s, ends, u, admitted⟩ := ends
  have reach := Session.reachable_run .initial ends
  exact ⟨s, u, reach, admitted, window_limit (by decide)
    (fun _ => .inr (.inr (by decide))) reach admitted⟩

/-- Two packets are 20 bytes, but two is less than a window of 15. -/
theorem window_exceeded : ∃ s u, Session.Reaches (Session.smallConfig .irn 25) s ∧
    s.snd.admits (Session.smallConfig .irn 25) true (getWin 15 false 0 0) = some (u, true) ∧
    (flight (Session.smallConfig .irn 25) u.msg).card = 20 := by
  have ends : ∃ s, Session.run (Session.smallConfig .irn 25) (fun _ _ => True) {}
    [.send true, .send true] = some s ∧
      ∃ u, s.snd.admits (Session.smallConfig .irn 25) true 15 = some (u, true) ∧
        (flight (Session.smallConfig .irn 25) u.msg).card = 20 := by
    refine ⟨_, rfl, _, rfl, ?_⟩
    decide
  obtain ⟨s, ends, u, admitted, bytes⟩ := ends
  exact ⟨s, u, Session.reachable_run .initial ends, admitted, bytes⟩

end Rdma

end Pyrrha

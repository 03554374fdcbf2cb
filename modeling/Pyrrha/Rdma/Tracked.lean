import Pyrrha.Rdma.PsnSets

/-!
The sets of a dis-order sender: `m_sent_psn` and, of what it holds, the packets to be sent again in
`m_timeout_psn`.
-/

namespace Pyrrha
open Lib

namespace Rdma

variable {cfg : Config}

/-- Both sets hold packets of the message. Behind the end of a message whose last packet reaches
2^32, the 32-bit sequence number wraps around to a stray one. -/
structure Tracked (cfg : Config) (m : SndOperation) : Prop where
  sub : ∀ q ∈ m.timeoutPsn, q ∈ m.sentPsn
  whole : Aligned cfg m.sndNxt ∨ m.sndNxt = cfg.size ∨ 2 ^ 32 ≤ cfg.lastEnd ∧ m.sndNxt = cfg.lastEnd
  sent : ∀ q ∈ m.sentPsn, Aligned cfg q ∧ q < m.sndNxt ∨ 2 ^ 32 ≤ m.sndNxt ∧ q = m.sndNxt - 2 ^ 32
  stuck : 2 ^ 32 ≤ m.sndNxt → cfg.lastStart ∈ m.timeoutPsn → ∀ q ∈ m.sentPsn,
    q ∈ m.timeoutPsn ∨ q = m.sndNxt - 2 ^ 32
  idle : m.timeouted = false → m.timeoutPsn.elems = []

theorem tracked_initial (cfg : Config) : Tracked cfg {} where
  sub q member := absurd member (OrderedSet.not_mem_empty q)
  whole := by
    rcases Nat.eq_zero_or_pos cfg.size with zero | pos
    · exact .inr (.inl zero.symm)
    · exact .inl ⟨Nat.dvd_zero _, pos⟩
  sent q member := absurd member (OrderedSet.not_mem_empty q)
  stuck wraps := absurd wraps (by decide)
  idle _ := rfl

theorem tracked_congr {m m' : SndOperation} (T : Tracked cfg m) (nxt : m'.sndNxt = m.sndNxt)
    (sent : m'.sentPsn = m.sentPsn) (timeout : m'.timeoutPsn = m.timeoutPsn)
    (timeouted : m'.timeouted = m.timeouted) : Tracked cfg m' := by
  refine ⟨?_, ?_, ?_, ?_, ?_⟩
  · rw [sent, timeout]
    exact T.sub
  · rw [nxt]
    exact T.whole
  · rw [sent, nxt]
    exact T.sent
  · rw [sent, nxt, timeout]
    exact T.stuck
  · rw [timeout, timeouted]
    exact T.idle

theorem tracked_recover {m : SndOperation} (mode : cfg.mode = .disOrder) (T : Tracked cfg m) :
    Tracked cfg (m.recover cfg) := by
  have same : (m.recover cfg).sndNxt = m.sndNxt := if_pos mode
  refine ⟨fun q member => member, ?_, ?_, fun _ _ q member => .inl member, nofun⟩
  · rw [same]
    exact T.whole
  · rw [same]
    exact T.sent

theorem tracked_acknowledge {m : SndOperation} (mode : cfg.mode = .disOrder)
    (T : Tracked cfg m) (ack : ℕ) (isLast : Bool) : Tracked cfg (m.acknowledge cfg ack isLast) := by
  unfold SndOperation.acknowledge
  rw [if_pos mode]
  dsimp only
  split
  · refine ⟨fun q member => ?_, T.whole, fun q member => ?_, fun wraps last q member => ?_,
      fun calm => ?_⟩
    · obtain ⟨other, timeout⟩ := OrderedSet.mem_erase.mp member
      exact OrderedSet.mem_erase.mpr ⟨other, T.sub q timeout⟩
    · exact T.sent q (OrderedSet.mem_of_erase member)
    · obtain ⟨other, sent⟩ := OrderedSet.mem_erase.mp member
      rcases T.stuck wraps (OrderedSet.mem_of_erase last) q sent with timeout | stray
      · exact .inl (OrderedSet.mem_erase.mpr ⟨other, timeout⟩)
      · exact .inr stray
    · have none := T.idle calm
      show m.timeoutPsn.elems.erase ack = []
      rw [none]
      rfl
  · exact tracked_congr T rfl rfl rfl rfl

/-- What `GetNxtPacket` sends: the next packet of the message, or the first one to be sent again, or
the stray one. -/
inductive Sending (cfg : Config) (m : SndOperation) (pkt : DataPacket) : SndOperation → Prop where
  | new : Aligned cfg m.sndNxt → pkt.seq = m.sndNxt →
      pkt.payload = cfg.payloadAt m.sndNxt ∨ pkt.payload = cfg.mtu ∧ 2 ^ 32 ≤ m.sndNxt + cfg.mtu →
      Sending cfg m pkt
        { m with sentPsn := m.sentPsn.insert m.sndNxt, sndNxt := m.sndNxt + pkt.payload }
  | again {rest : List ℕ} : m.sndNxt = cfg.size → m.timeouted = true →
      m.timeoutPsn.elems = pkt.seq :: rest → Sending cfg m pkt { m with
        timeoutPsn := m.timeoutPsn.erase pkt.seq
        timeouted := decide ((m.timeoutPsn.erase pkt.seq).elems ≠ []) }
  | stray : 2 ^ 32 ≤ m.sndNxt → pkt.seq = m.sndNxt - 2 ^ 32 →
      Sending cfg m pkt { m with sentPsn := m.sentPsn.insert (m.sndNxt - 2 ^ 32) }

/-- The payload of a packet that `GetNxtPayload` picks. -/
def Config.sentPayload (cfg : Config) (seq : ℕ) : ℕ :=
  if cfg.size ≤ add32 seq cfg.mtu then sub32 cfg.size seq else cfg.mtu

theorem sentPayload_aligned {q : ℕ} (aligned : Aligned cfg q) :
    cfg.sentPayload q = cfg.payloadAt q ∨ cfg.sentPayload q = cfg.mtu ∧ 2 ^ 32 ≤ q + cfg.mtu := by
  have size_lt := cfg.size_lt
  have lt := aligned.2
  have bytes : sub32 cfg.size q = cfg.size - q := sub32_exact size_lt lt.le
  unfold Config.sentPayload Config.payloadAt
  rcases Nat.lt_or_ge (q + cfg.mtu) (2 ^ 32) with small | wraps
  · left
    rw [add32_exact small, bytes]
    split <;> omega
  · right
    have mtu_lt := cfg.mtu_lt
    have early : ¬cfg.size ≤ add32 q cfg.mtu := by
      unfold add32
      omega
    exact ⟨if_neg early, wraps⟩

theorem getNxtPacket_psn {s : Sender} {seq : ℕ} {m : SndOperation} (mode : cfg.mode ≠ .irn)
    (picked : s.msg.nextPsn cfg = some (seq, m)) : ∃ t pkt, s.getNxtPacket cfg = some (t, pkt) ∧
    pkt.seq = seq ∧ pkt.payload = cfg.sentPayload seq ∧
      t.msg = { m with
        sndNxt := if seq = m.sndNxt then m.sndNxt + cfg.sentPayload seq else m.sndNxt } := by
  have payload : s.msg.getNxtPayload cfg = some (seq, cfg.sentPayload seq, m) := by
    unfold SndOperation.getNxtPayload
    rw [picked]
    rfl
  have next : Sender.nextPacket cfg s.msg = some (seq, cfg.sentPayload seq, m) :=
    (if_neg mode).trans payload
  unfold Sender.getNxtPacket
  rw [next]
  exact ⟨_, _, rfl, rfl, rfl, rfl⟩

theorem nextPsn_plain {m : SndOperation} (mode : cfg.mode = .disOrder)
    (fresh : (m.timeouted && decide (cfg.size ≤ m.sndNxt % 2 ^ 32)) = false) :
    m.nextPsn cfg =
      some (m.sndNxt % 2 ^ 32, { m with sentPsn := m.sentPsn.insert (m.sndNxt % 2 ^ 32) }) := by
  unfold SndOperation.nextPsn
  dsimp only
  rw [if_neg (not_not.mpr mode), fresh]

/-- The sender has a packet when `ShouldSndData` says so: no assert fails. -/
theorem getNxtPacket_sending {s : Sender} (mode : cfg.mode = .disOrder) (T : Tracked cfg s.msg)
    (ready : Ready cfg s.msg) : ∃ t pkt, s.getNxtPacket cfg = some (t, pkt) ∧
    Sending cfg s.msg pkt t.msg := by
  have size_lt := cfg.size_lt
  have other : cfg.mode ≠ .irn := by simp [mode]
  rcases T.whole with aligned | ends | ⟨long, wraps⟩
  · have lt := aligned.2
    have seq : s.msg.sndNxt % 2 ^ 32 = s.msg.sndNxt := Nat.mod_eq_of_lt (by omega)
    have fresh : (s.msg.timeouted && decide (cfg.size ≤ s.msg.sndNxt % 2 ^ 32)) = false := by
      rw [seq, decide_eq_false (not_le.mpr lt), Bool.and_false]
    have picked := nextPsn_plain mode fresh
    rw [seq] at picked
    obtain ⟨t, pkt, sent, seq_eq, payload, msg⟩ := getNxtPacket_psn other picked
    refine ⟨t, pkt, sent, ?_⟩
    rw [msg, if_pos rfl, ← payload]
    refine .new aligned seq_eq ?_
    rw [payload]
    exact sentPayload_aligned aligned
  · obtain ⟨timeouted, some_timeout⟩ := (ready.disOrder mode).resolve_left (by omega)
    obtain ⟨first, rest, elems⟩ := List.exists_cons_of_ne_nil some_timeout
    have seq : s.msg.sndNxt % 2 ^ 32 = cfg.size := by
      rw [ends]
      exact Nat.mod_eq_of_lt size_lt
    have member : first ∈ s.msg.timeoutPsn := by
      rw [OrderedSet.mem_def, elems]
      exact List.mem_cons_self
    have lt : first < cfg.size := by
      rcases T.sent first (T.sub first member) with ⟨aligned, -⟩ | ⟨beyond, -⟩
      · exact aligned.2
      · omega
    have picked : s.msg.nextPsn cfg = some (first, { s.msg with
        timeoutPsn := s.msg.timeoutPsn.erase first
        timeouted := decide ((s.msg.timeoutPsn.erase first).elems ≠ []) }) := by
      unfold SndOperation.nextPsn
      dsimp only
      rw [if_neg (not_not.mpr mode), seq, timeouted, decide_eq_true (le_refl _), elems]
      exact if_neg (not_le.mpr lt)
    obtain ⟨t, pkt, sent, seq_eq, payload, msg⟩ := getNxtPacket_psn other picked
    refine ⟨t, pkt, sent, ?_⟩
    have behind : ¬first = s.msg.sndNxt := by omega
    rw [msg]
    dsimp only
    rw [if_neg behind, ← seq_eq]
    exact .again ends timeouted (elems.trans (by rw [seq_eq]))
  · have short := lastEnd_lt cfg
    have mtu_lt := cfg.mtu_lt
    have seq : s.msg.sndNxt % 2 ^ 32 = s.msg.sndNxt - 2 ^ 32 := by omega
    have fresh : (s.msg.timeouted && decide (cfg.size ≤ s.msg.sndNxt % 2 ^ 32)) = false := by
      rw [seq, decide_eq_false (by omega), Bool.and_false]
    have picked := nextPsn_plain mode fresh
    rw [seq] at picked
    obtain ⟨t, pkt, sent, seq_eq, -, msg⟩ := getNxtPacket_psn other picked
    refine ⟨t, pkt, sent, ?_⟩
    have behind : ¬s.msg.sndNxt - 2 ^ 32 = s.msg.sndNxt := by omega
    rw [msg]
    dsimp only
    rw [if_neg behind]
    exact .stray (by omega) seq_eq

/-! ### Every event keeps the sets -/

theorem tracked_sending {m m' : SndOperation} {pkt : DataPacket} (T : Tracked cfg m)
    (sending : Sending cfg m pkt m') : Tracked cfg m' := by
  have size_lt := cfg.size_lt
  cases sending with
  | new aligned seq payload =>
    have lt := aligned.2
    have before : ∀ q ∈ m.sentPsn, Aligned cfg q ∧ q < m.sndNxt := by
      intro q member
      rcases T.sent q member with known | ⟨wraps, -⟩
      · exact known
      · omega
    have small : cfg.payloadAt m.sndNxt ≤ cfg.mtu := Nat.min_le_left _ _
    have some_bytes : 0 < pkt.payload := by
      have pos := cfg.mtu_pos
      unfold Config.payloadAt at payload
      omega
    refine ⟨fun q member => OrderedSet.mem_insert.mpr (.inr (T.sub q member)), ?_,
      fun q member => ?_, fun wraps last => ?_, T.idle⟩
    · rcases payload with part | ⟨full, wraps⟩
      · rcases Nat.lt_or_ge (m.sndNxt + cfg.mtu) cfg.size with more | ends
        · left
          rw [part]
          have whole : cfg.payloadAt m.sndNxt = cfg.mtu := by
            unfold Config.payloadAt
            omega
          rw [whole]
          exact ⟨Nat.dvd_add aligned.1 (Nat.dvd_refl _), more⟩
        · right
          left
          rw [part]
          unfold Config.payloadAt
          dsimp only
          omega
      · right
        right
        have last := last_aligned aligned (by omega)
        have start := @lastEnd_start cfg (by omega)
        rw [full]
        dsimp only
        omega
    · left
      rcases OrderedSet.mem_insert.mp member with rfl | old
      · exact ⟨aligned, Nat.lt_add_of_pos_right some_bytes⟩
      · exact ⟨(before q old).1, (before q old).2.trans (Nat.lt_add_of_pos_right some_bytes)⟩
    · -- the last packet has just been sent for the first time
      have earlier := (before _ (T.sub _ last)).2
      have mtu_lt := cfg.mtu_lt
      have ends : cfg.size ≤ m.sndNxt + cfg.mtu := by
        dsimp only at wraps
        omega
      have same := last_aligned aligned ends
      omega
  | again ends timeouted elems =>
    refine ⟨fun q member => T.sub q (OrderedSet.mem_of_erase member), T.whole, T.sent,
      fun wraps => ?_, fun calm => ?_⟩
    · dsimp only at wraps
      omega
    · exact not_not.mp (of_decide_eq_false calm)
  | stray wraps seq =>
    refine ⟨fun q member => OrderedSet.mem_insert.mpr (.inr (T.sub q member)), T.whole,
      fun q member => ?_, fun wraps last q member => ?_, T.idle⟩
    · rcases OrderedSet.mem_insert.mp member with stray | old
      · exact .inr ⟨wraps, stray⟩
      · exact T.sent q old
    · rcases OrderedSet.mem_insert.mp member with stray | old
      · exact .inr stray
      · exact T.stuck wraps last q old

theorem tracked_receive {s t : Sender} {ack : AckPacket} (mode : cfg.mode = .disOrder)
    (T : Tracked cfg s.msg) (h : s.receive cfg ack = some t) : Tracked cfg t.msg := by
  refine receive_keeps (by simp [mode]) (fun _ => T) (fun _ => ?_) (fun _ _ _ => ?_) h
  · exact tracked_acknowledge mode T _ _
  · exact tracked_recover mode

theorem shouldSndData_plain {s : Sender} (mode : cfg.mode ≠ .irn) :
    (s.shouldSndData cfg).1 = s := by
  unfold Sender.shouldSndData
  rw [if_neg mode]
  split <;> rfl

theorem tracked_step {s : Session} {t : Sender} {ev : Event} (mode : cfg.mode = .disOrder)
    (T : Tracked cfg s.snd.msg) (move : Move cfg s ev t) : Tracked cfg t.msg := by
  have plain : (s.snd.shouldSndData cfg).1 = s.snd := shouldSndData_plain (by simp [mode])
  cases move with
  | held stays =>
    rw [plain]
    exact T
  | @sent u _ pkt ready sent =>
    rw [ready] at plain
    obtain rfl : u = s.snd := plain
    obtain ⟨t', pkt', sent', sending⟩ := getNxtPacket_sending mode T (shouldSndData_ready ready)
    rw [sent] at sent'
    cases sent'
    exact tracked_sending T sending
  | recovered =>
    unfold Sender.recoverMSG
    split
    · exact T
    · exact tracked_recover mode T
  | timer armed =>
    unfold Sender.irnTimerHandler
    dsimp only
    split
    · exact tracked_congr T rfl rfl rfl rfl
    · exact T
  | acked here received => exact tracked_receive mode T received
  | kept => exact T

theorem tracked_reachable {allowed : Session → Event → Prop} {s : Session}
    (mode : cfg.mode = .disOrder)
    (reach : Session.Reachable cfg allowed s) : Tracked cfg s.snd.msg := by
  induction reach with
  | initial => exact tracked_initial cfg
  | step _ _ h before => exact tracked_step mode before (step_move h)

end Rdma

end Pyrrha

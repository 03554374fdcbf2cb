import Pyrrha.Lib.Milestones
import Pyrrha.Rdma.Flight

/-!
A go-back-N message that arrives in order and without loss. The receiver acknowledges a packet that
reaches the next milestone or ends a chunk, whether or not it is the last one.
-/

namespace Pyrrha
open Lib

namespace Rdma

/-- Settings of a go-back-N message without tokens. Unlike that of `Config`, the chunk may be 0, as
`L2ChunkSize` allows. -/
structure AckConfig where
  size : ℕ
  size_lt : size < 2 ^ 32
  mtu : ℕ
  mtu_pos : 0 < mtu
  mtu_lt : mtu < 2 ^ 32
  chunk : ℕ
  ackInterval : ℕ
  ackInterval_pos : 0 < ackInterval
  ackInterval_lt : ackInterval < 2 ^ 32
  backto0 : Bool

namespace AckConfig

/-- A division or a remainder by `m_chunk` is undefined when it is 0. -/
def checked (cfg : AckConfig) (x : ℕ) : Option ℕ := if cfg.chunk = 0 then none else some x

/-- With `m_backto0`, where the chunk of `seq` starts. -/
def chunkStart (cfg : AckConfig) (seq : ℕ) : Option ℕ :=
  if cfg.backto0 then cfg.checked (seq / cfg.chunk * cfg.chunk) else some seq

/-- `ReceiverCheckSeq` without IRN; `none` is a division by zero. -/
def receiverCheckSeq (cfg : AckConfig) (rx : RxOperation) (seq size : ℕ) (expired : Bool) :
    Option (RxOperation × SeqCheck) :=
  let expected := rx.nextExpectedSeq
  if seq = expected then
    let next := add32 expected size
    let rx := { rx with nextExpectedSeq := next }
    if rx.milestoneRx ≤ next then
      some ({ rx with milestoneRx := add32 rx.milestoneRx cfg.ackInterval }, .ack)
    else (cfg.checked (next % cfg.chunk)).map fun rest => (rx, if rest = 0 then .ack else .inOrder)
  else if expected < seq then
    if expired ∨ rx.lastNACK ≠ expected then
      (cfg.chunkStart expected).map fun next =>
        ({ rx with lastNACK := expected, nextExpectedSeq := next }, .nack)
    else some (rx, .nackHeld)
  else some (rx, .duplicate)

/-- `ReceiveUdp` without IRN, dis-order or tokens. -/
def receiveUdp (cfg : AckConfig) (r : Receiver) (pkt : DataPacket) (expired : Bool) :
    Option (Receiver × Option AckPacket) :=
  if r.finished then some (r, none)
  else do
    let (rx, x) ← cfg.receiverCheckSeq (r.msg.getD { milestoneRx := cfg.ackInterval }) pkt.seq
      pkt.payload expired
    let rx := rx.record pkt
    let all := rx.receivedAll cfg.mtu
    let checked := r.checked ++ [pkt]
    if x = .ack ∨ x = .nack then
      some (⟨if all then none else some rx, all, checked⟩,
        some ⟨if x = .ack then .ack else .nack, rx.nextExpectedSeq, 0, all⟩)
    else some (⟨some rx, false, checked⟩, none)

/-- What `ReceiveAck` makes of `snd_una`. -/
def receiveAck (cfg : AckConfig) (una : ℕ) (ack : AckPacket) : Option ℕ :=
  if cfg.size ≤ una then some una
  else (cfg.chunkStart ack.seq).map fun seq => if una < seq then seq else una

/-! ### The settings of the other modules -/

/-- The same message, for a chunk that is not 0. -/
def toConfig (cfg : AckConfig) (chunk_pos : 0 < cfg.chunk) (nackReaction : Bool) : Config where
  mode := .goBackN
  size := cfg.size
  size_lt := cfg.size_lt
  mtu := cfg.mtu
  mtu_pos := cfg.mtu_pos
  mtu_lt := cfg.mtu_lt
  chunk := cfg.chunk
  chunk_pos := chunk_pos
  ackInterval := cfg.ackInterval
  backto0 := cfg.backto0
  nackReaction := nackReaction
  l4Token := false
  hostPerPacketAck := false
  mibo := false

theorem checked_pos {cfg : AckConfig} (chunk_pos : 0 < cfg.chunk) (x : ℕ) :
    cfg.checked x = some x :=
  if_neg (by omega)

theorem chunkStart_pos {cfg : AckConfig} (chunk_pos : 0 < cfg.chunk) (seq : ℕ) :
    cfg.chunkStart seq = some (if cfg.backto0 then seq / cfg.chunk * cfg.chunk else seq) := by
  unfold chunkStart
  rw [checked_pos chunk_pos]
  split <;> rfl

theorem receiverCheckSeq_toConfig {cfg : AckConfig} (chunk_pos : 0 < cfg.chunk)
    (nackReaction : Bool) (rx : RxOperation) (seq size : ℕ) (expired : Bool) :
    cfg.receiverCheckSeq rx seq size expired =
      some (rx.checkSeq (cfg.toConfig chunk_pos nackReaction) seq size expired) := by
  simp only [receiverCheckSeq, RxOperation.checkSeq, checked_pos chunk_pos,
    chunkStart_pos chunk_pos, toConfig, Option.map_some]
  split
  · split <;> rfl
  · split
    · split <;> rfl
    · rfl

theorem receiveUdp_toConfig {cfg : AckConfig} (chunk_pos : 0 < cfg.chunk) (nackReaction : Bool)
    (r : Receiver) (pkt : DataPacket) (expired : Bool) :
    cfg.receiveUdp r pkt expired =
      r.receiveUdp (cfg.toConfig chunk_pos nackReaction) pkt expired := by
  simp only [receiveUdp, Receiver.receiveUdp, receiverCheckSeq_toConfig chunk_pos nackReaction,
    Receiver.operation, RxOperation.receiverCheckSeq, RxOperation.answer, RxOperation.ackFor]
  simp [toConfig]

theorem receiveAck_toConfig {cfg : AckConfig} (chunk_pos : 0 < cfg.chunk) (nackReaction : Bool)
    (s : Sender) (ack : AckPacket) (open_msg : s.msg.sndUna < cfg.size) :
    cfg.receiveAck s.msg.sndUna ack =
      some (s.takeAck (cfg.toConfig chunk_pos nackReaction) ack).msg.sndUna := by
  have interval : (cfg.toConfig chunk_pos nackReaction).ackInterval ≠ 0 := cfg.ackInterval_pos.ne'
  have mode : (cfg.toConfig chunk_pos nackReaction).mode = .goBackN := rfl
  have kept (seq : ℕ) :
    (s.msg.acknowledge (cfg.toConfig chunk_pos nackReaction) seq ack.last).sndUna =
      if s.msg.sndUna < seq then seq else s.msg.sndUna := by
    unfold SndOperation.acknowledge
    rw [if_neg (by simp [mode])]
    split <;> rfl
  have acked : (s.takeAck (cfg.toConfig chunk_pos nackReaction) ack).msg =
      s.msg.acknowledge (cfg.toConfig chunk_pos nackReaction)
        (if cfg.backto0 then ack.seq / cfg.chunk * cfg.chunk else ack.seq) ack.last := by
    unfold Sender.takeAck
    rw [if_neg interval, if_neg (by simp [mode])]
    dsimp only
    rw [apply_ite Sender.msg]
    exact ite_self _
  unfold receiveAck
  rw [if_neg (by omega), chunkStart_pos chunk_pos, acked, kept, Option.map_some]

/-! ### The packets of a message -/

def packetCount (cfg : AckConfig) : ℕ := (cfg.size + cfg.mtu - 1) / cfg.mtu

/-- The packet that starts at the `i`-th multiple of the payload. -/
def packet (cfg : AckConfig) (i : ℕ) : DataPacket where
  seq := i * cfg.mtu
  payload := if cfg.size ≤ add32 (i * cfg.mtu) cfg.mtu then sub32 cfg.size (i * cfg.mtu)
    else cfg.mtu
  last := decide (cfg.size ≤ add32 (i * cfg.mtu) cfg.mtu)

def packets (cfg : AckConfig) : List DataPacket := (List.range cfg.packetCount).map cfg.packet

/-- Where the receiver expects the next packet after the `i`-th. -/
def reach (cfg : AckConfig) (i : ℕ) : ℕ := add32 (i * cfg.mtu) (cfg.packet i).payload

theorem lt_packetCount (cfg : AckConfig) (i : ℕ) : i < cfg.packetCount ↔
    i * cfg.mtu < cfg.size := by
  have pos := cfg.mtu_pos
  rw [packetCount, ← Nat.succ_le_iff, Nat.le_div_iff_mul_le pos, Nat.succ_mul]
  omega

theorem size_le_packets (cfg : AckConfig) : cfg.size ≤ cfg.packetCount * cfg.mtu :=
  not_lt.mp fun lt => absurd ((lt_packetCount cfg _).mpr lt) (Nat.lt_irrefl _)

variable {cfg : AckConfig} {i : ℕ}

theorem packet_inner (inner : i + 1 < cfg.packetCount) :
    (cfg.packet i).payload = cfg.mtu ∧ (cfg.packet i).last = false ∧
    cfg.reach i = (i + 1) * cfg.mtu := by
  have lt := (lt_packetCount cfg _).mp inner
  have size_lt := cfg.size_lt
  have ends : add32 (i * cfg.mtu) cfg.mtu = (i + 1) * cfg.mtu := by
    rw [Nat.succ_mul] at lt ⊢
    exact add32_exact (by omega)
  have short : ¬ cfg.size ≤ add32 (i * cfg.mtu) cfg.mtu := by
    rw [ends]
    exact not_le.mpr lt
  have payload : (cfg.packet i).payload = cfg.mtu := if_neg short
  refine ⟨payload, decide_eq_false short, ?_⟩
  rw [reach, payload, ends]

/-- The last packet ends with the message, if sequence numbers do not wrap before. -/
theorem reach_last (last : i + 1 = cfg.packetCount) :
    cfg.reach i = cfg.size ↔ cfg.packetCount * cfg.mtu < 2 ^ 32 := by
  have size_lt := cfg.size_lt
  have mtu_lt := cfg.mtu_lt
  have start := (lt_packetCount cfg i).mp (by omega)
  have whole := size_le_packets cfg
  rw [← last, Nat.succ_mul] at whole ⊢
  by_cases fits : i * cfg.mtu + cfg.mtu < 2 ^ 32
  · have ends : add32 (i * cfg.mtu) cfg.mtu = i * cfg.mtu + cfg.mtu := add32_exact fits
    have payload : (cfg.packet i).payload = cfg.size - i * cfg.mtu := by
      rw [packet, ends]
      exact (if_pos whole).trans (sub32_exact size_lt start.le)
    have exact_reach : cfg.reach i = cfg.size := by
      rw [reach, payload, add32_exact (by omega)]
      omega
    exact ⟨fun _ => fits, fun _ => exact_reach⟩
  · have wraps : add32 (i * cfg.mtu) cfg.mtu = i * cfg.mtu + cfg.mtu - 2 ^ 32 := by
      rw [add32, Nat.mod_eq_sub_mod (by omega), Nat.mod_eq_of_lt (by omega)]
    have payload : (cfg.packet i).payload = cfg.mtu := by
      rw [packet, wraps]
      exact if_neg (by omega)
    rw [reach, payload, wraps]
    constructor
    · intro eq
      omega
    · exact fun lt => absurd lt fits

theorem getNxtPacket_packet {s : Sender} (chunk_pos : 0 < cfg.chunk) (nackReaction : Bool)
    (lt : i < cfg.packetCount) (nxt : s.msg.sndNxt = i * cfg.mtu) :
    ∃ s', s.getNxtPacket (cfg.toConfig chunk_pos nackReaction) =
      some (s', cfg.packet i) ∧ s'.msg.sndNxt = i * cfg.mtu + (cfg.packet i).payload := by
  have start := (lt_packetCount cfg i).mp lt
  have size_lt := cfg.size_lt
  have seq : s.msg.sndNxt % 2 ^ 32 = i * cfg.mtu := by
    rw [nxt]
    exact Nat.mod_eq_of_lt (by omega)
  have mode : (cfg.toConfig chunk_pos nackReaction).mode = .goBackN := rfl
  unfold Sender.getNxtPacket Sender.nextPacket SndOperation.getNxtPayload SndOperation.nextPsn
  rw [if_neg (by simp [mode]), if_pos (by simp [mode]), seq]
  refine ⟨_, rfl, ?_⟩
  dsimp only
  rw [if_pos nxt.symm, nxt]
  rfl

/-! ### Delivery in order -/

/-- The replies to packets that arrive one after the other. `expired` says whether `m_nackTimer` has
expired when a packet arrives. -/
def deliver (cfg : AckConfig) (expired : DataPacket → Bool) : Receiver → List DataPacket →
    Option (List (Option AckPacket))
  | _, [] => some []
  | r, pkt :: pkts => do
    let (r, reply) ← cfg.receiveUdp r pkt (expired pkt)
    let replies ← cfg.deliver expired r pkts
    some (reply :: replies)

/-- `snd_una` after the acknowledgements among the replies. -/
def sndUna (cfg : AckConfig) : ℕ → List (Option AckPacket) → Option ℕ
  | una, [] => some una
  | una, none :: replies => cfg.sndUna una replies
  | una, some ack :: replies => do
    let una ← cfg.receiveAck una ack
    cfg.sndUna una replies

/-- The packets of the message arrive in order: no division by zero, an acknowledgement of the size
for the packet that completes the message, and a sender that knows. -/
def Acknowledged (cfg : AckConfig) (expired : DataPacket → Bool) : Prop :=
  ∃ replies una, cfg.deliver expired {} cfg.packets = some replies ∧
    (∀ reply, replies.getLast? = some reply → ∃ ack, reply = some ack ∧ ack.ackType = .ack ∧
      ack.seq = cfg.size) ∧
    cfg.sndUna 0 replies = some una ∧ cfg.size ≤ una

/-- The `j`-th value of `m_milestone_rx`. -/
def milestone (cfg : AckConfig) (j : ℕ) : ℕ := (j + 1) * cfg.ackInterval % 2 ^ 32

/-- The bytes of the message in the packets up to the `i`-th. -/
def level (cfg : AckConfig) (i : ℕ) : ℕ := min ((i + 1) * cfg.mtu) cfg.size

theorem level_mono (cfg : AckConfig) : Monotone cfg.level := by
  intro i j le
  have := Nat.mul_le_mul_right cfg.mtu (Nat.add_le_add_right le 1)
  unfold level
  omega

theorem milestone_succ (cfg : AckConfig) (j : ℕ) :
    add32 (cfg.milestone j) cfg.ackInterval = cfg.milestone (j + 1) := by
  rw [add32, milestone, Nat.mod_add_mod, milestone, Nat.succ_mul (j + 1)]

theorem reach_inner (inner : i + 1 < cfg.packetCount) : cfg.reach i = cfg.level i := by
  have lt := (lt_packetCount cfg _).mp inner
  rw [(packet_inner inner).2.2, level]
  omega

theorem level_last (last : i + 1 = cfg.packetCount) : cfg.level i = cfg.size := by
  have whole := size_le_packets cfg
  rw [← last] at whole
  exact Nat.min_eq_right whole

/-- The `i`-th packet reaches the next milestone. -/
def Reaches (cfg : AckConfig) (i : ℕ) : Prop :=
  cfg.milestone (taken cfg.milestone cfg.level i) ≤ cfg.reach i

/-- The receiver once the first `i` packets have arrived. -/
structure At (cfg : AckConfig) (r : Receiver) (i : ℕ) : Prop where
  unfinished : r.finished = false
  next : (r.msg.getD { milestoneRx := cfg.ackInterval }).nextExpectedSeq = i * cfg.mtu
  milestone : (r.msg.getD { milestoneRx := cfg.ackInterval }).milestoneRx =
    cfg.milestone (taken cfg.milestone cfg.level i)
  incomplete : (r.msg.getD { milestoneRx := cfg.ackInterval }).receivedLastPsnPacket = false

theorem at_zero (cfg : AckConfig) : At cfg {} 0 where
  unfinished := rfl
  next := (Nat.zero_mul _).symm
  milestone := by
    have lt := cfg.ackInterval_lt
    rw [taken, AckConfig.milestone, Nat.zero_add, Nat.one_mul, Nat.mod_eq_of_lt lt]
    rfl
  incomplete := rfl

/-- An acknowledgement of what the `i`-th packet reaches, if it ends an interval or a chunk. -/
structure Answer (cfg : AckConfig) (i : ℕ) (reply : Option AckPacket) : Prop where
  kind : ∀ ack ∈ reply, ack.ackType = .ack ∧ ack.seq = cfg.reach i
  sent : reply.isSome = true ↔ cfg.Reaches i ∨ 0 < cfg.chunk ∧ cfg.chunk ∣ cfg.reach i

theorem receiverCheckSeq_next {rx : RxOperation} {seq size : ℕ} {expired : Bool}
    (next : rx.nextExpectedSeq = seq) : cfg.receiverCheckSeq rx seq size expired =
      if rx.milestoneRx ≤ add32 seq size then
        some ({ rx with
          nextExpectedSeq := add32 seq size
          milestoneRx := add32 rx.milestoneRx cfg.ackInterval }, .ack)
      else (cfg.checked (add32 seq size % cfg.chunk)).map fun rest =>
        ({ rx with nextExpectedSeq := add32 seq size }, if rest = 0 then .ack else .inOrder) := by
  subst next
  exact if_pos rfl

/-- What `ReceiveUdp` makes of a verdict of `ReceiverCheckSeq` on a packet that is not the last
one. -/
theorem receiveUdp_verdict {r : Receiver} (pkt : DataPacket) {expired : Bool} {rx : RxOperation}
    {x : SeqCheck} (unfinished : r.finished = false)
    (check : cfg.receiverCheckSeq (r.msg.getD { milestoneRx := cfg.ackInterval }) pkt.seq
      pkt.payload expired = some (rx, x)) (kind : x = .ack ∨ x = .inOrder) :
    ∃ r' reply, cfg.receiveUdp r pkt expired = some (r', reply) ∧
      (∀ ack ∈ reply, ack.ackType = .ack ∧ ack.seq = rx.nextExpectedSeq) ∧
        (reply.isSome = true ↔ x = .ack) ∧
      ((rx.record pkt).receivedLastPsnPacket = false → r'.finished = false ∧
        r'.msg = some (rx.record pkt)) := by
  unfold receiveUdp
  rw [if_neg (by simp [unfinished]), check]
  rcases kind with rfl | rfl
  · refine ⟨_, _, rfl, fun ack eq => ?_, by simp, fun last => ?_⟩
    · obtain rfl := Option.some.inj eq
      exact ⟨rfl, rfl⟩
    · simp [RxOperation.receivedAll, last]
  · exact ⟨_, _, rfl, fun ack eq => (by cases eq), by simp, fun _ => ⟨rfl, rfl⟩⟩

theorem receiveUdp_packet {r : Receiver} (A : At cfg r i) (expired : Bool) :
    (cfg.chunk = 0 ∧ ¬ cfg.Reaches i ∧ cfg.receiveUdp r (cfg.packet i) expired = none) ∨
      (cfg.chunk = 0 → cfg.Reaches i) ∧ ∃ r' reply, cfg.receiveUdp r (cfg.packet i) expired =
        some (r', reply) ∧ Answer cfg i reply ∧ (i + 1 < cfg.packetCount → At cfg r' (i + 1)) := by
  have check : cfg.receiverCheckSeq _ _ (cfg.packet i).payload expired = _ :=
    receiverCheckSeq_next A.next
  rw [A.milestone] at check
  have arrived (rx : RxOperation) (x : SeqCheck) (kind : x = .ack ∨ x = .inOrder)
      (found : cfg.receiverCheckSeq (r.msg.getD { milestoneRx := cfg.ackInterval }) (i * cfg.mtu)
        (cfg.packet i).payload expired = some (rx, x)) (next : rx.nextExpectedSeq = cfg.reach i)
      (psn : rx.receivedLastPsnPacket = false)
      (acked : x = .ack ↔ cfg.Reaches i ∨ 0 < cfg.chunk ∧ cfg.chunk ∣ cfg.reach i)
      (later : i + 1 < cfg.packetCount → rx.milestoneRx =
        cfg.milestone (taken cfg.milestone cfg.level (i + 1))) :
      ∃ r' reply, cfg.receiveUdp r (cfg.packet i) expired = some (r', reply) ∧
        Answer cfg i reply ∧ (i + 1 < cfg.packetCount → At cfg r' (i + 1)) := by
    obtain ⟨r', reply, receive, kind, sent, left⟩ :=
      receiveUdp_verdict (cfg.packet i) A.unfinished found kind
    refine ⟨r', reply, receive, ⟨?_, sent.trans acked⟩, fun inner => ?_⟩
    · rw [← next]
      exact kind
    · obtain ⟨_, more, full⟩ := packet_inner inner
      have open_msg : (rx.record (cfg.packet i)).receivedLastPsnPacket = false := by
        simp [RxOperation.record, psn, more]
      obtain ⟨unfinished, msg⟩ := left open_msg
      refine ⟨unfinished, ?_, ?_, ?_⟩
      · rw [msg, ← full, ← next]
        rfl
      · rw [msg, ← later inner]
        rfl
      · rw [msg]
        exact open_msg
  by_cases reaches : cfg.Reaches i
  · right
    have found := check.trans (if_pos reaches)
    refine ⟨fun _ => reaches, arrived _ _ (.inl rfl) found rfl A.incomplete
      (by simp [reaches]) fun inner => ?_⟩
    have takes : Takes cfg.milestone cfg.level i := by
      rw [Takes, ← reach_inner inner]
      exact reaches
    rw [taken_of_takes takes, ← milestone_succ]
  · have found := check.trans (if_neg reaches)
    rcases Nat.eq_zero_or_pos cfg.chunk with zero | pos
    · left
      rw [checked, if_pos zero] at found
      refine ⟨zero, reaches, ?_⟩
      unfold receiveUdp
      rw [if_neg (by simp [A.unfinished])]
      exact (congrArg (· >>= _) found).trans rfl
    · right
      rw [checked_pos pos] at found
      refine ⟨fun zero => absurd zero pos.ne', arrived _ _ ?_ found rfl A.incomplete ?_ fun inner =>
        ?_⟩
      · split
        · exact .inl rfl
        · exact .inr rfl
      · simp only [reaches, pos, false_or, true_and, Nat.dvd_iff_mod_eq_zero, reach]
        simp
      · have takes : ¬ Takes cfg.milestone cfg.level i := by
          rw [Takes, ← reach_inner inner]
          exact reaches
        rw [taken_of_not_takes takes]

theorem deliver_packets {r : Receiver} {count : ℕ} (A : i < cfg.packetCount → At cfg r i)
    (all : i + count = cfg.packetCount) (expired : DataPacket → Bool) :
    (∃ k, i ≤ k ∧ k < cfg.packetCount ∧ cfg.chunk = 0 ∧ ¬ cfg.Reaches k ∧
      cfg.deliver expired r ((List.range' i count).map cfg.packet) = none) ∨
    (∀ k, i ≤ k → k < cfg.packetCount → cfg.chunk = 0 → cfg.Reaches k) ∧
      ∃ replies, cfg.deliver expired r ((List.range' i count).map cfg.packet) = some replies ∧
        replies.length = count ∧ ∀ k reply, replies[k]? = some reply →
        Answer cfg (i + k) reply := by
  induction count generalizing r i with
  | zero =>
    exact .inr ⟨fun k ge lt => by omega, [], rfl, rfl, fun k reply at_k => by simp at at_k⟩
  | succ count ih =>
    rw [List.range'_succ, List.map_cons, deliver]
    rcases receiveUdp_packet (A (by omega)) (expired (cfg.packet i)) with
      ⟨zero, short, stops⟩ | ⟨reaches, r', reply, receive, answer, later⟩
    · left
      refine ⟨i, Nat.le_refl i, by omega, zero, short, ?_⟩
      rw [stops]
      rfl
    · rcases ih later (by omega) with ⟨k, ge, lt, zero, short, stops⟩ | ⟨rest, replies, deliver,
        length, answers⟩
      · left
        refine ⟨k, by omega, lt, zero, short, ?_⟩
        rw [receive, Option.bind_eq_bind, Option.bind_some]
        dsimp only
        rw [stops]
        rfl
      · right
        refine ⟨fun k ge lt zero => ?_, reply :: replies, ?_, by rw [List.length_cons, length],
          fun k y at_k => ?_⟩
        · rcases ge.eq_or_lt with rfl | beyond
          · exact reaches zero
          · exact rest k beyond lt zero
        · rw [receive, Option.bind_eq_bind, Option.bind_some]
          dsimp only
          rw [deliver]
          rfl
        · cases k with
          | zero =>
            obtain rfl := Option.some.inj at_k
            exact answer
          | succ k =>
            have := answers k y at_k
            rwa [show i + 1 + k = i + (k + 1) by omega] at this

/-! ### What the sender learns -/

theorem chunkStart_some {seq start : ℕ} (h : cfg.chunkStart seq = some start) :
    start ≤ seq ∧ (cfg.backto0 = true → 0 < cfg.chunk ∧ cfg.chunk ∣ start) := by
  unfold chunkStart at h
  split at h
  · unfold checked at h
    split at h
    · cases h
    · rename_i pos
      obtain rfl := Option.some.inj h
      exact ⟨Nat.div_mul_le_self _ _, fun _ => ⟨Nat.pos_of_ne_zero pos, Nat.dvd_mul_left _ _⟩⟩
  · rename_i off
    obtain rfl := Option.some.inj h
    exact ⟨Nat.le_refl _, fun on => absurd on off⟩

theorem chunkStart_size (defined : cfg.backto0 = true → 0 < cfg.chunk ∧ cfg.chunk ∣ cfg.size) :
    cfg.chunkStart cfg.size = some cfg.size := by
  unfold chunkStart
  split
  · rename_i on
    obtain ⟨pos, dvd⟩ := defined on
    rw [checked_pos pos, Nat.div_mul_cancel dvd]
  · rfl

theorem chunkStart_defined (defined : cfg.backto0 = true → 0 < cfg.chunk) (seq : ℕ) :
    ∃ start, cfg.chunkStart seq = some start := by
  unfold chunkStart
  split
  · rename_i on
    exact ⟨_, checked_pos (defined on) _⟩
  · exact ⟨seq, rfl⟩

theorem sndUna_heard {replies : List (Option AckPacket)} {una una' : ℕ}
    (h : cfg.sndUna una replies = some una') (before : una < cfg.size) (after : cfg.size ≤ una') :
    ∃ ack, some ack ∈ replies ∧ ∃ start, cfg.chunkStart ack.seq = some start ∧
    cfg.size ≤ start := by
  induction replies generalizing una with
  | nil =>
    obtain rfl := Option.some.inj h
    omega
  | cons reply replies ih =>
    cases reply with
    | none =>
      obtain ⟨ack, member, heard⟩ := ih h before
      exact ⟨ack, List.mem_cons_of_mem _ member, heard⟩
    | some ack =>
      obtain ⟨next, receive, rest⟩ := Option.bind_eq_some_iff.mp h
      unfold receiveAck at receive
      rw [if_neg (not_le.mpr before)] at receive
      obtain ⟨start, found, eq⟩ := Option.map_eq_some_iff.mp receive
      rcases Nat.lt_or_ge start cfg.size with short | whole
      · have below : next < cfg.size := by
          rw [← eq]
          split
          · exact short
          · exact before
        obtain ⟨ack', member, heard⟩ := ih rest below
        exact ⟨ack', List.mem_cons_of_mem _ member, heard⟩
      · exact ⟨ack, List.mem_cons_self, start, found, whole⟩

theorem sndUna_hears (defined : cfg.backto0 = true → 0 < cfg.chunk)
    (replies : List (Option AckPacket)) (una : ℕ) :
    ∃ una', cfg.sndUna una replies = some una' ∧ (cfg.size ≤ una → cfg.size ≤ una') ∧
      ∀ ack, some ack ∈ replies → cfg.chunkStart ack.seq = some cfg.size → cfg.size ≤ una' := by
  induction replies generalizing una with
  | nil => exact ⟨una, rfl, id, fun ack member => by cases member⟩
  | cons reply replies ih =>
    cases reply with
    | none =>
      obtain ⟨una', run, kept, hears⟩ := ih una
      refine ⟨una', run, kept, fun ack member start => ?_⟩
      rcases List.mem_cons.mp member with eq | member
      · cases eq
      · exact hears ack member start
    | some ack =>
      obtain ⟨start, found⟩ := chunkStart_defined defined ack.seq
      obtain ⟨next, receive, most⟩ : ∃ next, cfg.receiveAck una ack = some next ∧
          (cfg.size ≤ una ∨ cfg.size ≤ start → cfg.size ≤ next) := by
        unfold receiveAck
        split
        · rename_i done
          exact ⟨una, rfl, fun _ => done⟩
        · rw [found]
          refine ⟨_, rfl, fun reached => ?_⟩
          dsimp only
          split <;> omega
      obtain ⟨una', run, kept, hears⟩ := ih next
      refine ⟨una', ?_, fun done => kept (most (.inl done)), fun ack' member whole => ?_⟩
      · rw [sndUna, receive]
        exact run
      · rcases List.mem_cons.mp member with eq | member
        · obtain rfl := Option.some.inj eq
          have same := Option.some.inj (found.symm.trans whole)
          exact kept (most (.inr (by omega)))
        · exact hears ack' member whole

/-! ### When the last packet is acknowledged -/

/-- The last packet reaches a milestone: it ends a row of packets that reach one each, where the
milestones before that are reached in time and the row could not have started earlier. -/
def LastReaches (cfg : AckConfig) : Prop :=
  ∃ c ≤ cfg.packetCount - 1,
    (∀ j ≤ c, cfg.milestone j ≤ cfg.level (cfg.packetCount - 1 - (c - j))) ∧
    ∃ j ≤ c, c - j = cfg.packetCount - 1 ∨ cfg.level (cfg.packetCount - 1 - (c - j) - 1) <
      cfg.milestone j

/-- Sequence numbers do not wrap, and the message ends a chunk or its last packet reaches a
milestone: one that the sender gets to hear of, and without a chunk one of a row that has started
with the first packet. -/
def EndsAcked (cfg : AckConfig) : Prop :=
  cfg.packetCount * cfg.mtu < 2 ^ 32 ∧
    (0 < cfg.chunk ∧ cfg.chunk ∣ cfg.size ∨
      cfg.backto0 = false ∧
        if cfg.chunk = 0 then cfg.ackInterval ≤ cfg.mtu ∧
          cfg.packetCount * cfg.ackInterval ≤ cfg.size
        else cfg.LastReaches)

/-- If sequence numbers do not wrap, a packet reaches a milestone when its bytes do. -/
theorem reaches_iff (fits : cfg.packetCount * cfg.mtu < 2 ^ 32) (lt : i < cfg.packetCount) :
    cfg.Reaches i ↔ Takes cfg.milestone cfg.level i := by
  rcases Nat.lt_or_ge (i + 1) cfg.packetCount with inner | ge
  · rw [Reaches, reach_inner inner, Takes]
  · have last : i + 1 = cfg.packetCount := by omega
    rw [Reaches, (reach_last last).mpr fits, Takes, level_last last]

theorem reaches_last (last : i + 1 = cfg.packetCount) (fits : cfg.packetCount * cfg.mtu < 2 ^ 32) :
    cfg.Reaches i ↔ cfg.LastReaches := by
  have here : cfg.packetCount - 1 = i := by omega
  rw [reaches_iff fits (by omega), LastReaches, here]
  exact takes_iff (level_mono cfg)

/-- Every packet reaches a milestone if the intervals are no longer than the packets, the last one
included. -/
theorem reaches_all_iff (some_bytes : 0 < cfg.size) (fits : cfg.packetCount * cfg.mtu < 2 ^ 32) :
    (∀ k < cfg.packetCount, cfg.Reaches k) ↔
      cfg.ackInterval ≤ cfg.mtu ∧ cfg.packetCount * cfg.ackInterval ≤ cfg.size := by
  have first : 0 < cfg.packetCount := (lt_packetCount cfg 0).mpr (by omega)
  have takes : (∀ k < cfg.packetCount, cfg.Reaches k) ↔ ∀ k < cfg.packetCount, cfg.milestone k ≤
      cfg.level k := by
    rw [← takes_all_iff]
    exact forall₂_congr fun k lt => reaches_iff fits lt
  rw [takes]
  constructor
  · intro all
    have short : cfg.ackInterval ≤ cfg.mtu := by
      have := all 0 first
      rw [milestone, level, Nat.zero_add, Nat.one_mul, Nat.one_mul,
        Nat.mod_eq_of_lt cfg.ackInterval_lt] at this
      omega
    have last : cfg.packetCount - 1 + 1 = cfg.packetCount := by omega
    have scaled := Nat.mul_le_mul_left cfg.packetCount short
    have := all (cfg.packetCount - 1) (by omega)
    rw [level_last last, milestone, last, Nat.mod_eq_of_lt (by omega)] at this
    exact ⟨short, this⟩
  · rintro ⟨short, whole⟩ k lt
    have total := Nat.mul_le_mul_right cfg.ackInterval (Nat.succ_le_of_lt lt)
    have inside := Nat.mul_le_mul_left (k + 1) short
    have := Nat.mod_le ((k + 1) * cfg.ackInterval) (2 ^ 32)
    rw [Nat.succ_eq_add_one] at total
    unfold milestone level
    omega

/-- As long as the milestones do not wrap, the packets before the last one have reached one each, or
one in every interval, whichever is less; the last packet reaches the one after that. -/
theorem lastReaches_iff (some_bytes : 0 < cfg.size) (fits : cfg.packetCount * cfg.mtu < 2 ^ 32)
    (plain : cfg.ackInterval ≤ cfg.mtu ∨ cfg.size + cfg.ackInterval ≤ 2 ^ 32) :
    cfg.LastReaches ↔
      (min (cfg.packetCount - 1) ((cfg.packetCount - 1) * cfg.mtu / cfg.ackInterval) +
        1) * cfg.ackInterval ≤ cfg.size := by
  have first : 0 < cfg.packetCount := (lt_packetCount cfg 0).mpr (by omega)
  have last : cfg.packetCount - 1 + 1 = cfg.packetCount := by omega
  have inner := (lt_packetCount cfg (cfg.packetCount - 1)).mp (by omega)
  have spaced : ∀ j ≤ cfg.packetCount - 1, j * cfg.ackInterval ≤ (cfg.packetCount - 1) * cfg.mtu →
      cfg.milestone j = (j + 1) * cfg.ackInterval := by
    intro j le within
    refine Nat.mod_eq_of_lt ?_
    rcases plain with short | small
    · have := Nat.mul_le_mul (show j + 1 ≤ cfg.packetCount by omega) short
      omega
    · rw [Nat.succ_mul]
      omega
  have rises : ∀ k < cfg.packetCount - 1, cfg.level k = (k + 1) * cfg.mtu := by
    intro k lt
    have := (lt_packetCount cfg (k + 1)).mp (by omega)
    exact Nat.min_eq_left this.le
  have count := taken_even cfg.ackInterval_pos spaced rises
  have within : taken cfg.milestone cfg.level (cfg.packetCount - 1) * cfg.ackInterval ≤
      (cfg.packetCount - 1) * cfg.mtu := (Nat.le_div_iff_mul_le cfg.ackInterval_pos).mp (by omega)
  rw [← reaches_last last fits, reaches_iff fits (by omega), Takes,
    spaced _ (taken_le _ _ _) within, level_last last, count]

theorem deliver_message (cfg : AckConfig) (expired : DataPacket → Bool) :
    (∃ k < cfg.packetCount, cfg.chunk = 0 ∧ ¬ cfg.Reaches k ∧
      cfg.deliver expired {} cfg.packets = none) ∨
    (∀ k < cfg.packetCount, cfg.chunk = 0 → cfg.Reaches k) ∧
      ∃ replies, cfg.deliver expired {} cfg.packets = some replies ∧
        replies.length = cfg.packetCount ∧ ∀ k reply, replies[k]? = some reply →
        Answer cfg k reply := by
  have all := deliver_packets (fun _ => at_zero cfg) (Nat.zero_add cfg.packetCount) expired
  rw [← List.range_eq_range'] at all
  rcases all with ⟨k, _, lt, zero, short, stops⟩ | ⟨reaches, replies, deliver, length, answers⟩
  · exact .inl ⟨k, lt, zero, short, stops⟩
  · refine .inr ⟨fun k => reaches k (Nat.zero_le k), replies, deliver, length,
      fun k reply at_k => ?_⟩
    have := answers k reply at_k
    rwa [Nat.zero_add] at this

theorem reach_le (fits : cfg.packetCount * cfg.mtu < 2 ^ 32) (lt : i < cfg.packetCount) :
    cfg.reach i ≤ cfg.size := by
  rcases Nat.lt_or_ge (i + 1) cfg.packetCount with inner | ge
  · rw [reach_inner inner]
    exact Nat.min_le_right _ _
  · exact ((reach_last (by omega)).mpr fits).le

theorem lastReply_some {replies : List (Option AckPacket)} (some_bytes : 0 < cfg.size)
    (length : replies.length = cfg.packetCount) : ∃ reply, replies[cfg.packetCount - 1]? =
      some reply := by
  have first : 0 < cfg.packetCount := (lt_packetCount cfg 0).mpr (by omega)
  exact ⟨_, List.getElem?_eq_getElem (by omega)⟩

theorem getLast_reply {replies : List (Option AckPacket)}
    (length : replies.length = cfg.packetCount) :
    replies.getLast? = replies[cfg.packetCount - 1]? := by
  rw [List.getLast?_eq_getElem?, length]

theorem acknowledged_empty {expired : DataPacket → Bool} (zero : cfg.size = 0) :
    cfg.Acknowledged expired := by
  have none : cfg.packetCount = 0 := by
    have := lt_packetCount cfg 0
    omega
  refine ⟨[], 0, ?_, fun reply last => (by cases last), rfl, zero.le⟩
  rw [packets, none]
  rfl

/-- A sender learns that a message has arrived which ends inside a chunk only if `backto0` is
off. -/
theorem backto0_off {replies : List (Option AckPacket)} {una : ℕ} (some_bytes : 0 < cfg.size)
    (fits : cfg.packetCount * cfg.mtu < 2 ^ 32) (length : replies.length = cfg.packetCount)
    (answers : ∀ k reply, replies[k]? = some reply → Answer cfg k reply)
    (run : cfg.sndUna 0 replies = some una)
    (whole : cfg.size ≤ una) (inside : ¬(0 < cfg.chunk ∧ cfg.chunk ∣ cfg.size)) :
    cfg.backto0 = false := by
  obtain ⟨heard, member, start, found, reached⟩ := sndUna_heard run some_bytes whole
  obtain ⟨k, at_k⟩ := List.mem_iff_getElem?.mp member
  have within : k < cfg.packetCount := by
    rw [← length]
    exact (List.getElem?_eq_some_iff.mp at_k).1
  have bound : start ≤ cfg.size := by
    have := (chunkStart_some found).1
    rw [((answers k _ at_k).kind heard rfl).2] at this
    exact this.trans (reach_le fits within)
  by_contra on
  have divides := (chunkStart_some found).2 (by simpa using on)
  rw [Nat.le_antisymm bound reached] at divides
  exact inside divides

theorem endsAcked_of_acknowledged {expired : DataPacket → Bool} (some_bytes : 0 < cfg.size)
    (acknowledged : cfg.Acknowledged expired) : cfg.EndsAcked := by
  have last : cfg.packetCount - 1 + 1 = cfg.packetCount := by
    have := (lt_packetCount cfg 0).mpr (by omega)
    omega
  obtain ⟨replies, una, delivered, lastReply, run, whole⟩ := acknowledged
  rcases deliver_message cfg expired with ⟨_, _, _, _, stops⟩ | ⟨reaches, replies', delivered',
    length, answers⟩
  · rw [stops] at delivered
    cases delivered
  obtain rfl := Option.some.inj (delivered'.symm.trans delivered)
  obtain ⟨reply, at_last⟩ := lastReply_some some_bytes length
  have answer := answers _ reply at_last
  obtain ⟨ack, rfl, _, seq⟩ := lastReply reply ((getLast_reply length).trans at_last)
  have fits := (reach_last last).mp ((answer.kind ack rfl).2.symm.trans seq)
  have ends := answer.sent.mp rfl
  rw [(reach_last last).mpr fits] at ends
  refine ⟨fits, ?_⟩
  by_cases chunked : 0 < cfg.chunk ∧ cfg.chunk ∣ cfg.size
  · exact .inl chunked
  · refine .inr ⟨backto0_off some_bytes fits length answers run whole chunked, ?_⟩
    split
    · rename_i zero
      exact (reaches_all_iff some_bytes fits).mp fun k lt => reaches k lt zero
    · exact (reaches_last last fits).mp (ends.resolve_right chunked)

theorem reaches_of_endsAcked (some_bytes : 0 < cfg.size) (ends : cfg.EndsAcked)
    (zero : cfg.chunk = 0) {k : ℕ} (lt : k < cfg.packetCount) : cfg.Reaches k := by
  obtain ⟨fits, ⟨pos, _⟩ | ⟨_, ends⟩⟩ := ends
  · omega
  · rw [if_pos zero] at ends
    exact (reaches_all_iff some_bytes fits).mpr ends k lt

theorem last_of_endsAcked (some_bytes : 0 < cfg.size) (ends : cfg.EndsAcked) :
    cfg.Reaches (cfg.packetCount - 1) ∨ 0 < cfg.chunk ∧ cfg.chunk ∣ cfg.size := by
  have first : 0 < cfg.packetCount := (lt_packetCount cfg 0).mpr (by omega)
  by_cases zero : cfg.chunk = 0
  · exact .inl (reaches_of_endsAcked some_bytes ends zero (by omega))
  · obtain ⟨fits, chunked | ⟨_, ends⟩⟩ := ends
    · exact .inr chunked
    · rw [if_neg zero] at ends
      exact .inl ((reaches_last (by omega) fits).mpr ends)

theorem acknowledged_of_endsAcked {expired : DataPacket → Bool} (some_bytes : 0 < cfg.size)
    (ends : cfg.EndsAcked) : cfg.Acknowledged expired := by
  have last : cfg.packetCount - 1 + 1 = cfg.packetCount := by
    have := (lt_packetCount cfg 0).mpr (by omega)
    omega
  have size_reach := (reach_last last).mpr ends.1
  have defined : cfg.backto0 = true → 0 < cfg.chunk ∧ cfg.chunk ∣ cfg.size := by
    intro on
    rcases ends.2 with chunked | ⟨off, _⟩
    · exact chunked
    · rw [on] at off
      cases off
  rcases deliver_message cfg expired with ⟨k, lt, zero, short, _⟩ | ⟨_, replies, delivered,
    length, answers⟩
  · exact absurd (reaches_of_endsAcked some_bytes ends zero lt) short
  obtain ⟨reply, at_last⟩ := lastReply_some some_bytes length
  have answer := answers _ reply at_last
  have sent : reply.isSome = true := by
    rw [answer.sent, size_reach]
    exact last_of_endsAcked some_bytes ends
  obtain ⟨ack, rfl⟩ := Option.isSome_iff_exists.mp sent
  obtain ⟨kind, seq⟩ := answer.kind ack rfl
  rw [size_reach] at seq
  obtain ⟨una, run, _, hears⟩ := sndUna_hears (fun on => (defined on).1) replies 0
  refine ⟨replies, una, delivered, fun reply lastReply => ?_, run, ?_⟩
  · rw [getLast_reply length, at_last] at lastReply
    exact ⟨ack, (Option.some.inj lastReply).symm, kind, seq⟩
  · refine hears ack (List.mem_of_getElem? at_last) ?_
    rw [seq]
    exact chunkStart_size defined

/-- The last packet of a go-back-N message that arrives in order is acknowledged, and the sender
gets to know. -/
theorem lastAck_iff (cfg : AckConfig) (expired : DataPacket → Bool) :
    cfg.Acknowledged expired ↔ cfg.size = 0 ∨ cfg.EndsAcked := by
  constructor
  · intro acknowledged
    rcases Nat.eq_zero_or_pos cfg.size with zero | some_bytes
    · exact .inl zero
    · exact .inr (endsAcked_of_acknowledged some_bytes acknowledged)
  · rintro (zero | ends)
    · exact acknowledged_empty zero
    · rcases Nat.eq_zero_or_pos cfg.size with zero | some_bytes
      · exact acknowledged_empty zero
      · exact acknowledged_of_endsAcked some_bytes ends

theorem halfPacket_lt : 1500 < 2 ^ 32 := by decide

theorem fullPacket_pos : 0 < 1000 := by decide

theorem fullPacket_lt : 1000 < 2 ^ 32 := by decide

/-- A message of one full packet and half a packet, with an interval of a packet. -/
def halfPacket : AckConfig where
  size := 1500
  size_lt := halfPacket_lt
  mtu := 1000
  mtu_pos := fullPacket_pos
  mtu_lt := fullPacket_lt
  chunk := 4000
  ackInterval := 1000
  ackInterval_pos := fullPacket_pos
  ackInterval_lt := fullPacket_lt
  backto0 := false

/-- Its second packet neither reaches byte 2000 nor ends a chunk. -/
theorem halfPacket_unanswered : ¬ ∀ (cfg : AckConfig) (expired : DataPacket → Bool),
    cfg.Acknowledged expired := by
  intro all
  obtain ⟨replies, _, delivered, lastReply, _⟩ := all halfPacket fun _ => false
  have run : halfPacket.deliver (fun _ => false) {} halfPacket.packets =
      some [some ⟨.ack, 1000, 0, false⟩, none] := by decide +kernel
  obtain rfl := Option.some.inj (run.symm.trans delivered)
  obtain ⟨ack, eq, _⟩ := lastReply none rfl
  cases eq

end AckConfig

end Rdma

end Pyrrha

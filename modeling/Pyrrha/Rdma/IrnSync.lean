import Pyrrha.Rdma.Completion
import Pyrrha.Rdma.Flight

/-!
The two cursors of an IRN sender: `snd_nxt` of the message and the end of the window, which has a
slot for every packet from its base on. Only a recovery moves one of them without the other.
-/

namespace Pyrrha
open Lib

namespace Rdma

variable {cfg : Config}

/-- The multiple of the payload size from `x` on. -/
def Config.roundUp (cfg : Config) (x : ℕ) : ℕ := (x + cfg.mtu - 1) / cfg.mtu * cfg.mtu

theorem roundUp_aligned {x : ℕ} (dvd : cfg.mtu ∣ x) : cfg.roundUp x = x := by
  obtain ⟨i, rfl⟩ := dvd
  have pos := cfg.mtu_pos
  unfold Config.roundUp
  rw [Nat.add_sub_assoc pos, Nat.mul_add_div pos, Nat.div_eq_of_lt (by omega), Nat.add_zero,
    Nat.mul_comm]

theorem roundUp_next {q : ℕ} (aligned : Aligned cfg q) :
    cfg.roundUp (q + cfg.payloadAt q) = q + cfg.mtu := by
  obtain ⟨⟨i, rfl⟩, lt⟩ := aligned
  have pos := cfg.mtu_pos
  have some_bytes : 0 < cfg.payloadAt (cfg.mtu * i) := by
    unfold Config.payloadAt
    omega
  have most : cfg.payloadAt (cfg.mtu * i) ≤ cfg.mtu := Nat.min_le_left _ _
  have parts : cfg.mtu * i + cfg.payloadAt (cfg.mtu * i) + cfg.mtu - 1 =
      cfg.mtu * (i + 1) + (cfg.payloadAt (cfg.mtu * i) - 1) := by
    rw [Nat.mul_succ]
    omega
  unfold Config.roundUp
  rw [parts, Nat.mul_add_div pos, Nat.div_eq_of_lt (by omega), Nat.add_zero, Nat.mul_comm,
    Nat.mul_succ]

theorem le_roundUp (cfg : Config) (x : ℕ) : x ≤ cfg.roundUp x ∧ cfg.roundUp x < x + cfg.mtu := by
  have pos := cfg.mtu_pos
  have split := Nat.div_add_mod (x + cfg.mtu - 1) cfg.mtu
  have rest := Nat.mod_lt (x + cfg.mtu - 1) pos
  unfold Config.roundUp
  rw [Nat.mul_comm] at split
  omega

theorem roundUp_lastEnd {x : ℕ} (within : x ≤ cfg.size) : cfg.roundUp x ≤ cfg.lastEnd := by
  unfold Config.roundUp Config.lastEnd
  exact Nat.mul_le_mul_right _ (Nat.div_le_div_right (by omega))

/-- A multiple of the payload size is below `x` if it is below the next multiple. -/
theorem aligned_lt_roundUp {q x : ℕ} (dvd : cfg.mtu ∣ q) : q < cfg.roundUp x ↔ q < x := by
  obtain ⟨i, rfl⟩ := dvd
  have pos := cfg.mtu_pos
  have bounds := le_roundUp cfg x
  constructor
  · intro lt
    unfold Config.roundUp at lt bounds
    rw [Nat.mul_comm] at lt
    have step : i + 1 ≤ (x + cfg.mtu - 1) / cfg.mtu :=
      Nat.succ_le_of_lt (Nat.lt_of_mul_lt_mul_right lt)
    have scaled := Nat.mul_le_mul_right cfg.mtu step
    rw [Nat.succ_mul, Nat.mul_comm i] at scaled
    omega
  · intro lt
    omega

/-! ### The slots of the window -/

/-- The window has a slot for every packet from its base up to `nxt`, with its payload. -/
structure Slots (cfg : Config) (irn : SndIrn) (nxt : ℕ) : Prop where
  aligned : cfg.mtu ∣ irn.baseSeq
  frontier : irn.frontier cfg.mtu = cfg.roundUp nxt
  length : irn.payloads.length = irn.states.length
  payloads : ∀ i v, irn.payloads[i]? = some v → v = cfg.payloadAt (irn.baseSeq + i * cfg.mtu)
  rtx : ∀ q ∈ irn.rtxSeqQueues, Aligned cfg q

theorem slots_states {irn : SndIrn} {nxt : ℕ} (S : Slots cfg irn nxt) {states : List SndState}
    (same : states.length = irn.states.length) : Slots cfg { irn with states := states } nxt where
  aligned := S.aligned
  frontier := by
    have before := S.frontier
    unfold SndIrn.frontier at before ⊢
    rw [same]
    exact before
  length := S.length.trans same.symm
  payloads := S.payloads
  rtx := S.rtx

theorem slots_rtx {irn : SndIrn} {nxt : ℕ} (S : Slots cfg irn nxt) {rtx : List ℕ}
    (aligned : ∀ q ∈ rtx, Aligned cfg q) : Slots cfg { irn with rtxSeqQueues := rtx } nxt :=
  ⟨S.aligned, S.frontier, S.length, S.payloads, aligned⟩

theorem slots_move {states : List SndState} {payloads : List ℕ} {base nxt : ℕ} {rtx : List ℕ}
    (small : cfg.roundUp nxt < 2 ^ 32) (S : Slots cfg ⟨states, payloads, base, rtx⟩ nxt) :
    Slots cfg (SndIrn.moveWindow cfg.mtu ⟨states, payloads, base, rtx⟩) nxt := by
  induction states generalizing payloads base with
  | nil => exact S
  | cons state rest ih =>
    cases state with
    | ack =>
      have ends := S.frontier
      unfold SndIrn.frontier at ends
      simp only [List.length_cons, Nat.succ_mul] at ends
      have exact_add : add32 base cfg.mtu = base + cfg.mtu := Nat.mod_eq_of_lt (by omega)
      have same : SndIrn.moveWindow cfg.mtu ⟨.ack :: rest, payloads, base, rtx⟩ =
          SndIrn.moveWindow cfg.mtu ⟨rest, payloads.tail, base + cfg.mtu, rtx⟩ := by
        simp only [SndIrn.moveWindow, SndIrn.dropAcked, exact_add]
      rw [same]
      refine ih ⟨Nat.dvd_add S.aligned (Nat.dvd_refl _), ?_, ?_, fun i v at_i => ?_, S.rtx⟩
      · unfold SndIrn.frontier
        dsimp only
        omega
      · have before := S.length
        simp only [List.length_cons, List.length_tail] at before ⊢
        omega
      · have later := S.payloads (i + 1) v (by rw [← List.getElem?_tail]; exact at_i)
        rw [Nat.succ_mul, Nat.add_comm (i * _), ← Nat.add_assoc] at later
        exact later
    | unack => exact S
    | nack => exact S
    | undef => exact S

theorem slots_ack {irn : SndIrn} {nxt seq : ℕ} (small : cfg.roundUp nxt < 2 ^ 32)
    (S : Slots cfg irn nxt) : Slots cfg (irn.ackIrnState cfg.mtu seq) nxt := by
  unfold SndIrn.ackIrnState
  split
  · exact slots_move small (slots_states S List.length_set)
  · exact slots_move small S

theorem slots_sack {irn : SndIrn} {nxt seq : ℕ} (ack : ℕ) (small : cfg.roundUp nxt < 2 ^ 32)
    (S : Slots cfg irn nxt) : Slots cfg (irn.sackIrnState cfg.mtu seq ack) nxt := by
  unfold SndIrn.sackIrnState
  dsimp only
  split
  · refine slots_move small (slots_states (slots_states S List.length_set) ?_)
    rw [List.length_mapIdx]
    rfl
  · exact slots_move small S

theorem slots_send {irn : SndIrn} {q : ℕ} (S : Slots cfg irn q) (aligned : Aligned cfg q) :
    Slots cfg (irn.sendNewPacket (cfg.payloadAt q)) (q + cfg.payloadAt q) := by
  have ends := S.frontier
  rw [roundUp_aligned aligned.1] at ends
  refine ⟨S.aligned, ?_, ?_, fun i v at_i => ?_, S.rtx⟩
  · rw [frontier_send, ends, roundUp_next aligned]
  · simp [SndIrn.sendNewPacket, S.length]
  · have same := S.length
    change (irn.payloads ++ [cfg.payloadAt q])[i]? = some v at at_i
    rcases Nat.lt_trichotomy i irn.payloads.length with lt | eq | gt
    · rw [List.getElem?_append_left lt] at at_i
      exact S.payloads i v at_i
    · rw [eq, List.getElem?_append_right (le_refl _), Nat.sub_self] at at_i
      unfold SndIrn.frontier at ends
      show v = cfg.payloadAt (irn.baseSeq + i * cfg.mtu)
      rw [eq, same, ends]
      exact (Option.some.inj at_i).symm
    · rw [List.getElem?_append_right gt.le, List.getElem?_eq_none (by simp; omega)] at at_i
      cases at_i

/-! ### The sender -/

/-- Both cursors of the sender agree, and every packet it has sent starts below `snd_nxt`. -/
structure Synced (cfg : Config) (s : Sender) : Prop where
  slots : Slots cfg s.msg.irn s.msg.sndNxt
  whole : cfg.mtu ∣ s.msg.sndNxt ∨ s.msg.sndNxt = cfg.size
  within : s.msg.sndNxt ≤ cfg.size
  timers : ∀ q ∈ s.timers, Aligned cfg q ∧ q < s.msg.sndNxt

theorem synced_initial (cfg : Config) : Synced cfg {} where
  slots := {
    aligned := Nat.dvd_zero _
    frontier := by
      rw [roundUp_aligned (Nat.dvd_zero _)]
      simp [SndIrn.frontier]
    length := rfl
    payloads _ _ := nofun
    rtx _ := nofun }
  whole := .inl (Nat.dvd_zero _)
  within := Nat.zero_le _
  timers _ := nofun

theorem synced_irn {s : Sender} {irn : SndIrn} {b f : Bool} (S : Synced cfg s)
    (slots : Slots cfg irn s.msg.sndNxt) :
    Synced cfg { s with msg := { s.msg with irn := irn }, isSending := b, finished := f } :=
  ⟨slots, S.whole, S.within, S.timers⟩

theorem Synced.small {s : Sender} (S : Synced cfg s) (fits : cfg.lastEnd < 2 ^ 32) :
    cfg.roundUp s.msg.sndNxt < 2 ^ 32 :=
  (roundUp_lastEnd S.within).trans_lt fits

theorem missing_sent {s : Sender} (S : Synced cfg s) {q : ℕ} (aligned : Aligned cfg q)
    (missing : s.msg.irn.isMissing cfg.mtu q = true) : q < s.msg.sndNxt := by
  rw [← aligned_lt_roundUp aligned.1, ← S.slots.frontier]
  obtain ⟨ge, inside⟩ := isMissing_index missing
  have position := index_seq S.slots.aligned aligned.1 ge
  have scaled := Nat.mul_lt_mul_of_pos_right inside cfg.mtu_pos
  unfold SndIrn.frontier
  omega

theorem synced_should {s : Sender} (mode : cfg.mode = .irn) (S : Synced cfg s) :
    Synced cfg (s.shouldSndData cfg).1 ∧ (s.shouldSndData cfg).1.timers = s.timers := by
  unfold Sender.shouldSndData
  rw [if_pos mode]
  split
  · exact ⟨S, rfl⟩
  have filtered : Slots cfg { s.msg.irn with
      rtxSeqQueues := s.msg.irn.rtxSeqQueues.filter (s.msg.irn.isMissing cfg.mtu) } s.msg.sndNxt :=
    slots_rtx S.slots fun q member => S.slots.rtx q (List.mem_filter.mp member).1
  dsimp only
  split
  · exact ⟨synced_irn S filtered, rfl⟩
  · exact ⟨synced_irn S filtered, rfl⟩

theorem getNxtPayload_new {m m' : SndOperation} {seq payload : ℕ} (mode : cfg.mode = .irn)
    (fits : cfg.lastEnd < 2 ^ 32)
    (aligned : Aligned cfg m.sndNxt) (h : m.getNxtPayload cfg = some (seq, payload, m')) :
    seq = m.sndNxt ∧ payload = cfg.payloadAt m.sndNxt ∧ m' = m := by
  have size_lt := cfg.size_lt
  have lt := aligned.2
  have ends := aligned_lastEnd aligned
  unfold SndOperation.getNxtPayload SndOperation.nextPsn at h
  rw [if_pos (by simp [mode])] at h
  simp only [Option.bind_eq_bind, Option.bind_some, Option.some.injEq, Prod.mk.injEq] at h
  obtain ⟨rfl, rfl, rfl⟩ := h
  have seq : m.sndNxt % 2 ^ 32 = m.sndNxt := Nat.mod_eq_of_lt (by omega)
  have sum : add32 m.sndNxt cfg.mtu = m.sndNxt + cfg.mtu := add32_exact (by omega)
  have bytes : sub32 cfg.size m.sndNxt = cfg.size - m.sndNxt := sub32_exact size_lt lt.le
  refine ⟨seq, ?_, rfl⟩
  rw [seq, sum, bytes]
  unfold Config.payloadAt
  split <;> omega

/-- What a sent packet is: one that has been sent before, or the one at `snd_nxt`. -/
structure Sends (cfg : Config) (s t : Sender) (pkt : DataPacket) : Prop where
  synced : Synced cfg t
  aligned : Aligned cfg pkt.seq
  payload : pkt.payload = cfg.payloadAt pkt.seq
  last : pkt.last = true → cfg.size ≤ pkt.seq + cfg.mtu
  fresh : (Sender.popRtx cfg.mtu s.msg.irn s.msg.irn.rtxSeqQueues).1 = none → pkt.seq ∉ s.timers

theorem synced_rtx {s : Sender} {q : ℕ} {rest : List ℕ} (S : Synced cfg s)
    (popped : Sender.popRtx cfg.mtu s.msg.irn s.msg.irn.rtxSeqQueues = (some q, rest)) :
    Aligned cfg q ∧ q < s.msg.sndNxt ∧ s.msg.irn.getPayloadSize cfg.mtu q = cfg.payloadAt q ∧
      Slots cfg ({ s.msg.irn with rtxSeqQueues := rest }.setSeqState cfg.mtu q .unack)
        s.msg.sndNxt := by
  obtain ⟨member, missing, sub⟩ := popRtx_some popped
  have aligned := S.slots.rtx q member
  obtain ⟨ge, inside⟩ := isMissing_index missing
  have payload : s.msg.irn.getPayloadSize cfg.mtu q = cfg.payloadAt q := by
    have within : ¬(s.msg.irn.getNextSequenceNumber cfg.mtu ≤ q ∨ q < s.msg.irn.baseSeq) := by
      rintro (beyond | before)
      · simp [SndIrn.isMissing, SndIrn.getIrnState, beyond] at missing
      · omega
    rw [← S.slots.length] at inside
    have value := S.slots.payloads (s.msg.irn.index cfg.mtu q) _ (List.getElem?_eq_getElem inside)
    rw [index_seq S.slots.aligned aligned.1 ge] at value
    rw [SndIrn.getPayloadSize, if_neg within, List.getD_eq_getElem _ _ inside, value]
  refine ⟨aligned, missing_sent S aligned missing, payload, slots_states ?_ List.length_set⟩
  exact slots_rtx S.slots fun x hx => S.slots.rtx x (sub hx)

theorem synced_sent {s t : Sender} {pkt : DataPacket} (mode : cfg.mode = .irn)
    (fits : cfg.lastEnd < 2 ^ 32)
    (S : Synced cfg s) (ready : Ready cfg s.msg) (h : s.getNxtPacket cfg = some (t, pkt)) :
    Sends cfg s t pkt := by
  obtain ⟨⟨seq, payload, m⟩, next, h⟩ := Option.bind_eq_some_iff.mp h
  cases h
  have last : decide (cfg.size ≤ add32 seq cfg.mtu) = true → cfg.size ≤ seq + cfg.mtu := by
    intro flag
    have wraps : add32 seq cfg.mtu ≤ seq + cfg.mtu := Nat.mod_le _ _
    exact (of_decide_eq_true flag).trans wraps
  unfold Sender.nextPacket at next
  rw [if_pos mode] at next
  cases popped : Sender.popRtx cfg.mtu s.msg.irn s.msg.irn.rtxSeqQueues with
  | mk found rest =>
    rw [popped] at next
    cases found with
    | some q =>
      obtain ⟨rfl, rfl, rfl⟩ : q = seq ∧ _ = payload ∧ _ = m := by simpa using next
      obtain ⟨aligned, sent, bytes, slots⟩ := synced_rtx S popped
      have other : ¬q = s.msg.sndNxt := by omega
      refine ⟨⟨?_, ?_, ?_, ?_⟩, aligned, bytes, last, fun none => by simp [popped] at none⟩
      all_goals dsimp only; rw [if_neg other]
      · exact slots
      · exact S.whole
      · exact S.within
      · rw [if_pos mode]
        intro x member
        rcases List.mem_append.mp member with old | new
        · exact S.timers x old
        · rw [List.mem_singleton.mp new]
          exact ⟨aligned, sent⟩
    | none =>
      obtain ⟨rfl, all_sent⟩ := popRtx_none popped
      have empty : s.msg.irn.rtxSeqQueues = [] := by
        refine List.eq_nil_iff_forall_not_mem.mpr fun q member => ?_
        have missing := ready.missing mode q member
        rw [all_sent q member] at missing
        cases missing
      have below := ready.irn mode empty
      have aligned : Aligned cfg s.msg.sndNxt := ⟨S.whole.resolve_right below.ne, below⟩
      obtain ⟨⟨q, v, m'⟩, picked, rest⟩ := Option.bind_eq_some_iff.mp next
      obtain ⟨rfl, rfl, rfl⟩ := getNxtPayload_new mode fits aligned picked
      obtain ⟨rfl, rfl, rfl⟩ : s.msg.sndNxt = seq ∧ _ = payload ∧ _ = m := by simpa using rest
      have sent :=
        slots_send (slots_rtx S.slots fun q member => (List.not_mem_nil member).elim) aligned
      have whole : cfg.payloadAt s.msg.sndNxt = cfg.mtu ∨
          s.msg.sndNxt + cfg.payloadAt s.msg.sndNxt = cfg.size := by
        unfold Config.payloadAt
        omega
      have some_bytes : 0 < cfg.payloadAt s.msg.sndNxt := by
        have := cfg.mtu_pos
        unfold Config.payloadAt
        omega
      refine ⟨⟨?_, ?_, ?_, ?_⟩, aligned, rfl, last, fun _ old => ?_⟩
      · dsimp only
        rw [if_pos rfl]
        exact sent
      · dsimp only
        rw [if_pos rfl]
        rcases whole with full | ends
        · rw [full]
          exact .inl (Nat.dvd_add aligned.1 (Nat.dvd_refl _))
        · exact .inr ends
      · dsimp only
        rw [if_pos rfl]
        unfold Config.payloadAt
        omega
      · dsimp only
        rw [if_pos mode, if_pos rfl]
        intro x member
        rcases List.mem_append.mp member with old | new
        · have before := S.timers x old
          exact ⟨before.1, by omega⟩
        · rw [List.mem_singleton.mp new]
          exact ⟨aligned, by omega⟩
      · exact Nat.lt_irrefl _ (S.timers _ old).2

theorem synced_timer {s : Sender} {q : ℕ} (S : Synced cfg s) (armed : q ∈ s.timers) :
    Synced cfg (s.irnTimerHandler cfg q) := by
  unfold Sender.irnTimerHandler
  dsimp only
  split
  · refine synced_irn S (slots_rtx (slots_states S.slots List.length_set) fun x member => ?_)
    rcases List.mem_append.mp member with old | new
    · exact S.slots.rtx x old
    · rw [List.mem_singleton.mp new]
      exact (S.timers q armed).1
  · exact S

/-- A recovery that finds nothing sent but not acknowledged keeps both cursors. -/
theorem synced_recover {s : Sender} (mode : cfg.mode = .irn) (S : Synced cfg s)
    (nothing : s.finished = true ∨ s.msg.sndUna = s.msg.sndNxt) :
    Synced cfg (s.recoverMSG cfg) := by
  unfold Sender.recoverMSG
  split
  · exact S
  · rename_i active
    have same := nothing.resolve_left active
    have back : (s.msg.recover cfg).sndNxt = s.msg.sndNxt := by
      have other : ¬cfg.mode = .disOrder := by simp [mode]
      exact (if_neg other).trans same
    refine ⟨?_, ?_, ?_, ?_⟩
    all_goals dsimp only; rw [back]
    · exact S.slots
    · exact S.whole
    · exact S.within
    · exact S.timers

theorem acknowledge_cursors (m : SndOperation) (mode : cfg.mode = .irn) (ack : ℕ) (isLast : Bool) :
    (m.acknowledge cfg ack isLast).irn = m.irn ∧ (m.acknowledge cfg ack isLast).sndNxt =
      m.sndNxt := by
  unfold SndOperation.acknowledge
  rw [if_neg (by simp [mode])]
  split <;> exact ⟨rfl, rfl⟩

theorem synced_move {s t : Sender} (S : Synced cfg s) (h : s.moveToSending = some t) :
    Synced cfg t := by
  unfold Sender.moveToSending at h
  split at h
  · cases h
    exact S
  split at h
  · cases h
  · cases h
    exact ⟨S.slots, S.whole, S.within, S.timers⟩

theorem synced_acked {s t : Sender} {ack : AckPacket} (mode : cfg.mode = .irn)
    (fits : cfg.lastEnd < 2 ^ 32)
    (S : Synced cfg s) (kind : ack.ackType ≠ .nack) (seq : Aligned cfg ack.seq)
    (nackSeq : cfg.mtu ∣ ack.nackSeq) (h : s.receive cfg ack = some t) : Synced cfg t := by
  have small := S.small fits
  unfold Sender.receive at h
  cases type : ack.ackType with
  | nack => exact absurd type kind
  | ack =>
    rw [type] at h
    dsimp only at h
    unfold Sender.receiveAck at h
    split at h
    · cases h
      exact S
    split at h
    · split at h
      · cases h
        exact ⟨S.slots, S.whole, S.within, S.timers⟩
      · cases h
    rw [if_neg (by simp [type])] at h
    cases h
    unfold Sender.takeAck
    split
    · exact S
    obtain ⟨irn, nxt⟩ :=
      acknowledge_cursors { s.msg with irn := s.msg.irn.ackIrnState cfg.mtu ack.seq } mode
        ack.seq ack.last
    have after : Slots cfg ({ s.msg with irn := s.msg.irn.ackIrnState cfg.mtu ack.seq }.acknowledge
      cfg ack.seq ack.last).irn
        ({ s.msg with irn := s.msg.irn.ackIrnState cfg.mtu ack.seq }.acknowledge cfg ack.seq
          ack.last).sndNxt := by
      rw [irn, nxt]
      exact slots_ack small S.slots
    generalize { s.msg with irn := s.msg.irn.ackIrnState cfg.mtu ack.seq }.acknowledge cfg ack.seq
      ack.last = m at *
    have whole := S.whole
    have within := S.within
    have timers := S.timers
    change m.sndNxt = s.msg.sndNxt at nxt
    rw [← nxt] at whole within timers
    dsimp only
    split
    · exact ⟨after, whole, within, timers⟩
    · exact ⟨after, whole, within, timers⟩
  | sack =>
    rw [type] at h
    dsimp only at h
    unfold Sender.receiveSack at h
    rw [if_neg (by simp [mode])] at h
    split at h
    · cases h
      exact S
    split at h
    · split at h
      · cases h
        exact ⟨S.slots, S.whole, S.within, S.timers⟩
      · cases h
    split at h
    · cases h
      exact S
    obtain ⟨rtx, loop, h⟩ := Option.bind_eq_some_iff.mp h
    obtain ⟨v, moved, h⟩ := Option.bind_eq_some_iff.mp h
    have size_lt := cfg.size_lt
    have lost := loop32_mem loop (seq.2.trans size_lt) nackSeq seq.1
    have sacked : Slots cfg (s.msg.irn.sackIrnState cfg.mtu ack.seq ack.nackSeq) s.msg.sndNxt :=
      slots_sack ack.nackSeq small S.slots
    have queued : ∀ q ∈ (s.msg.irn.sackIrnState cfg.mtu ack.seq ack.nackSeq).rtxSeqQueues ++ rtx,
        Aligned cfg q := by
      intro q member
      rcases List.mem_append.mp member with old | new
      · exact sacked.rtx q old
      · exact ⟨(lost q new).1, (lost q new).2.trans seq.2⟩
    have after := slots_rtx sacked queued
    have sending := synced_move (synced_irn S after) moved
    split at h
    · cases h
      exact ⟨sending.slots, sending.whole, sending.within, sending.timers⟩
    · cases h
      exact sending

/-! ### Runs -/

/-- A recovery finds no packet of the message in flight. -/
def Event.Synchronous (s : Session) : Event → Prop
  | .timeout => s.snd.finished = true ∨ s.snd.msg.sndUna = s.snd.msg.sndNxt
  | _ => True

instance (s : Session) (ev : Event) : Decidable (ev.Synchronous s) :=
  match ev with
  | .timeout =>
      inferInstanceAs (Decidable (s.snd.finished = true ∨ s.snd.msg.sndUna = s.snd.msg.sndNxt))
  | .send _ | .irnTimer _ | .dataArrives .. | .ackArrives _ | .loseData _ | .loseAck
      _ | .duplicateData _
  | .duplicateAck _ => isTrue trivial

theorem synced_ready {s u t : Sender} {pkt : DataPacket} (mode : cfg.mode = .irn)
    (fits : cfg.lastEnd < 2 ^ 32) (S : Synced cfg s) (ready : s.shouldSndData cfg = (u, true))
    (sent : u.getNxtPacket cfg = some (t, pkt)) :
    Sends cfg u t pkt ∧ u.timers = s.timers := by
  have before := synced_should mode S
  rw [ready] at before
  exact ⟨synced_sent mode fits before.1 (shouldSndData_ready ready) sent, before.2⟩

theorem sends_sound {s t : Sender} {pkt : DataPacket} (sends : Sends cfg s t pkt) :
    Sound cfg pkt := by
  refine ⟨sends.aligned.2, ?_, sends.last, fun _ => sends.aligned.1⟩
  rw [sends.payload]
  unfold Config.payloadAt
  omega

theorem synced_step {s : Session} {t : Sender} {ev : Event} (mode : cfg.mode = .irn)
    (fits : cfg.lastEnd < 2 ^ 32)
    (S : Synced cfg s.snd) (N : Network cfg s) (synchronous : ev.Synchronous s)
    (move : Move cfg s ev t) : Synced cfg t := by
  cases move with
  | held stays => exact (synced_should mode S).1
  | sent ready sent => exact (synced_ready mode fits S ready sent).1.synced
  | recovered => exact synced_recover mode S synchronous
  | timer armed => exact synced_timer S armed
  | @acked k ack _ here received =>
    have member := List.mem_of_getElem? here
    obtain ⟨pkt, arrived, seq⟩ := (N.acks ack member).seen mode
    have sound := N.rcv.checked pkt arrived
    have aligned : Aligned cfg ack.seq := seq ▸ ⟨sound.aligned mode, sound.seq_lt⟩
    exact synced_acked mode fits S (N.kinds mode ack member) aligned
      ((N.acks ack member).nackSeq mode) received
  | kept => exact S

theorem synced_reachable {s : Session} (mode : cfg.mode = .irn) (fits : cfg.lastEnd < 2 ^ 32)
    (reach : Session.Reachable cfg (fun s ev => ev.Synchronous s) s) : Synced cfg s.snd ∧
    Network cfg s := by
  induction reach with
  | initial => exact ⟨synced_initial cfg, network_initial cfg⟩
  | step _ synchronous h before =>
    obtain ⟨S, N⟩ := before
    refine ⟨synced_step mode fits S N synchronous (step_move h),
      network_step (fun _ => fits.le) N h ?_⟩
    exact fun _ _ _ ready sent => sends_sound (synced_ready mode fits S ready sent).1

/-- What the two cursors of a sender are for: they agree, the window has a slot with the right
payload for every packet from its base up to `snd_nxt`, and a packet that is not a retransmission
has not been sent. -/
structure Synchronised (cfg : Config) (s : Sender) : Prop where
  next : s.msg.irn.getNextSequenceNumber cfg.mtu = cfg.roundUp s.msg.sndNxt
  base : cfg.mtu ∣ s.msg.irn.baseSeq ∧ s.msg.irn.baseSeq ≤ cfg.roundUp s.msg.sndNxt
  slots : ∀ i, i < s.msg.irn.states.length ↔ s.msg.irn.baseSeq + i * cfg.mtu < s.msg.sndNxt
  payloads : s.msg.irn.payloads =
    (List.range s.msg.irn.states.length).map fun i =>
      cfg.payloadAt (s.msg.irn.baseSeq + i * cfg.mtu)
  fresh : ∀ u t pkt, s.shouldSndData cfg = (u, true) → u.getNxtPacket cfg = some (t, pkt) →
    (Sender.popRtx cfg.mtu u.msg.irn u.msg.irn.rtxSeqQueues).1 = none → pkt.seq ∉ s.timers

theorem synchronised {s : Sender} (mode : cfg.mode = .irn) (fits : cfg.lastEnd < 2 ^ 32)
    (S : Synced cfg s) : Synchronised cfg s := by
  have ends := S.slots.frontier
  have small := S.small fits
  unfold SndIrn.frontier at ends
  refine ⟨?_, ⟨S.slots.aligned, by omega⟩, fun i => ?_, ?_, fun u t pkt ready sent new => ?_⟩
  · unfold SndIrn.getNextSequenceNumber
    rw [ends, Nat.mod_eq_of_lt small]
  · rw [← aligned_lt_roundUp (Nat.dvd_add S.slots.aligned (Nat.dvd_mul_left _ _)), ← ends]
    rw [Nat.add_lt_add_iff_left, Nat.mul_lt_mul_right cfg.mtu_pos]
  · have same := S.slots.length
    refine List.ext_getElem? fun i => ?_
    rcases Nat.lt_or_ge i s.msg.irn.states.length with lt | ge
    · have inside : i < s.msg.irn.payloads.length := lt.trans_eq same.symm
      rw [List.getElem?_eq_getElem inside, List.getElem?_map, List.getElem?_range lt]
      exact congrArg some (S.slots.payloads i _ (List.getElem?_eq_getElem inside))
    · rw [List.getElem?_eq_none (by omega), List.getElem?_eq_none (by simpa using ge)]
  · obtain ⟨sends, timers⟩ := synced_ready mode fits S ready sent
    rw [← timers]
    exact sends.fresh new

/-- An IRN sender stays synchronised while its recoveries find nothing in flight. -/
theorem irn_synchronised {s : Session} (mode : cfg.mode = .irn) (fits : cfg.lastEnd < 2 ^ 32)
    (reach : Session.Reachable cfg (fun s ev => ev.Synchronous s) s) : Synchronised cfg s.snd :=
  synchronised mode fits (synced_reachable mode fits reach).1

/-- The second packet overtakes the first, which is sent again. -/
def retransmittedRun : List Event :=
  [.timeout, .send true, .send true, .dataArrives 1 false, .ackArrives 0, .send true,
    .irnTimer 0, .send true]

theorem irn_synchronised_retransmitted : ∃ s : Session, s.snd.timers = [0, 10, 0, 0] ∧
    s.snd.msg.sndNxt = 20 ∧
    Synchronised (Session.smallConfig .irn 25) s.snd := by
  have ends : ∃ s, Session.run (Session.smallConfig .irn 25) (fun s ev => ev.Synchronous s)
    {} retransmittedRun = some s ∧ s.snd.timers = [0, 10, 0, 0] ∧ s.snd.msg.sndNxt = 20 := by
    refine ⟨_, Option.get_mem (?_ : Option.isSome _), ?_⟩ <;> decide
  obtain ⟨s, ends, sent, next⟩ := ends
  exact ⟨s, sent, next, irn_synchronised rfl (by decide) (Session.reachable_run .initial ends)⟩

/-- A recovery goes back to 0 while the window keeps its two packets: the next new packet is the
first one again. -/
theorem irn_apart : ∃ s u t pkt, Session.Reaches (Session.smallConfig .irn 25) s ∧
    s.snd.msg.irn.getNextSequenceNumber 10 = 20 ∧
    (Session.smallConfig .irn 25).roundUp s.snd.msg.sndNxt = 0 ∧
    s.snd.shouldSndData (Session.smallConfig .irn 25) = (u, true) ∧
    u.getNxtPacket (Session.smallConfig .irn 25) = some (t, pkt) ∧ u.msg.irn.rtxSeqQueues = [] ∧
    pkt.seq ∈ s.snd.timers := by
  have ends : ∃ s, Session.run (Session.smallConfig .irn 25) (fun _ _ => True) {}
      [.send true, .send true, .timeout] = some s ∧ s = {
    snd := {
      msg := { timeouted := true, irn := { states := [.unack, .unack], payloads := [10, 10] } }
      timers := [0, 10] }
    data := [⟨0, 10, false⟩, ⟨10, 10, false⟩] } := by
    refine ⟨_, Option.get_mem (?_ : Option.isSome _), ?_⟩ <;> decide
  obtain ⟨s, ends, rfl⟩ := ends
  exact ⟨_, _, _, _, Session.reachable_run .initial ends, by decide, by decide, rfl, rfl,
    rfl, by decide⟩

end Rdma

end Pyrrha

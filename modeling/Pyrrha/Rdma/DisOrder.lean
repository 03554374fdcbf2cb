import Pyrrha.Rdma.Tracked

/-!
The bookkeeping of a dis-order sender against the history of its message: what it has sent, and
which acknowledgements it has processed.
-/

namespace Pyrrha
open Lib

namespace Rdma

variable {cfg : Config}

/-- The sequence numbers that were sent, those of the acknowledgements that were processed, and
those that were sent again since the last recovery. -/
structure History where
  sent : List ℕ := []
  acked : List ℕ := []
  again : List ℕ := []
  deriving DecidableEq

namespace History

def send (H : History) (seq : ℕ) : History :=
  { H with sent := H.sent ++ [seq], again := if seq ∈ H.sent then H.again ++ [seq] else H.again }

def record (cfg : Config) (s : Session) (H : History) : Event → History
  | .send allowed =>
    let (u, ready) := s.snd.shouldSndData cfg
    match ready && allowed, u.getNxtPacket cfg with
    | true, some (_, pkt) => H.send pkt.seq
    | _, _ => H
  | .timeout => if s.snd.finished then H else { H with again := [] }
  | .ackArrives k =>
    match s.acks[k]? with
    | some ack => if s.snd.Takes cfg then { H with acked := H.acked ++ [ack.seq] } else H
    | none => H
  | _ => H

end History

/-- The runs of a session with their history. -/
inductive Session.Traced (cfg : Config) : Session → History → Prop where
  | initial : Session.Traced cfg {} {}
  | step {s t : Session} {H : History} {ev : Event} : Session.Traced cfg s H →
      s.step cfg ev = some t → Session.Traced cfg t (H.record cfg s ev)

theorem traced_of_reaches {s : Session} (reach : Session.Reaches cfg s) :
    ∃ H, Session.Traced cfg s H := by
  induction reach with
  | initial => exact ⟨_, .initial⟩
  | step _ _ h before =>
    obtain ⟨H, traced⟩ := before
    exact ⟨_, .step traced h⟩

/-! ### The sender -/

/-- Sequence numbers do not wrap around, and an acknowledgement of a packet acknowledges this
packet. -/
def Config.Plain (cfg : Config) : Prop := cfg.lastEnd < 2 ^ 32 ∧ ∀ q, Aligned cfg q →
    cfg.ackedSeq q = q

/-- What the sender keeps agrees with the history. -/
structure Recorded (cfg : Config) (m : SndOperation) (H : History) : Prop where
  tracked : Tracked cfg m
  below : ∀ q ∈ H.sent, Aligned cfg q ∧ q < m.sndNxt
  psn : ∀ q, q ∈ m.sentPsn ↔ q ∈ H.sent ∧ q ∉ H.acked
  known : ∀ q ∈ H.acked, q ∈ H.sent
  least : ∀ q ∈ m.sentPsn, m.sndUna ≤ q
  una : m.sndUna ∈ m.sentPsn ∨ m.sentPsn.elems = [] ∧ m.sndUna = m.sndNxt
  once : H.again.Nodup
  done : ∀ q ∈ H.again, q ∉ m.timeoutPsn

theorem recorded_initial (cfg : Config) : Recorded cfg {} {} where
  tracked := tracked_initial cfg
  below _ := nofun
  psn q := by simp
  known _ := nofun
  least q member := absurd member (OrderedSet.not_mem_empty q)
  una := .inr ⟨rfl, rfl⟩
  once := List.nodup_nil
  done _ := nofun

theorem Tracked.no_wrap {m : SndOperation} (T : Tracked cfg m) (fits : cfg.lastEnd < 2 ^ 32) :
    m.sndNxt < 2 ^ 32 ∧ (Aligned cfg m.sndNxt ∨ m.sndNxt = cfg.size) := by
  have size_lt := cfg.size_lt
  rcases T.whole with aligned | ends | ⟨long, -⟩
  · exact ⟨aligned.2.trans size_lt, .inl aligned⟩
  · exact ⟨ends ▸ size_lt, .inr ends⟩
  · omega

theorem recorded_sending {m m' : SndOperation} {H : History} {pkt : DataPacket}
    (fits : cfg.lastEnd < 2 ^ 32)
    (R : Recorded cfg m H) (sending : Sending cfg m pkt m') : Recorded cfg m' (H.send pkt.seq) := by
  have tracked := tracked_sending R.tracked sending
  have small := (R.tracked.no_wrap fits).1
  cases sending with
  | new aligned seq payload =>
    have fresh : m.sndNxt ∉ H.sent := fun old => Nat.lt_irrefl _ (R.below _ old).2
    have some_bytes : 0 < pkt.payload := by
      have pos := cfg.mtu_pos
      have lt := aligned.2
      unfold Config.payloadAt at payload
      omega
    have same : (H.send pkt.seq).again = H.again := if_neg (by rw [seq]; exact fresh)
    refine ⟨tracked, fun q member => ?_, fun q => ?_, fun q member => ?_, fun q member => ?_,
      .inl ?_, ?_, ?_⟩
    · rcases List.mem_append.mp member with old | last
      · exact ⟨(R.below q old).1, (R.below q old).2.trans (Nat.lt_add_of_pos_right some_bytes)⟩
      · rw [List.mem_singleton.mp last, seq]
        exact ⟨aligned, Nat.lt_add_of_pos_right some_bytes⟩
    · show q ∈ m.sentPsn.insert m.sndNxt ↔ q ∈ H.sent ++ [pkt.seq] ∧ q ∉ H.acked
      rw [OrderedSet.mem_insert, R.psn q, List.mem_append, List.mem_singleton, seq]
      constructor
      · rintro (rfl | ⟨old, open_⟩)
        · exact ⟨.inr rfl, fun acked => fresh (R.known _ acked)⟩
        · exact ⟨.inl old, open_⟩
      · rintro ⟨old | rfl, open_⟩
        · exact .inr ⟨old, open_⟩
        · exact .inl rfl
    · exact List.mem_append_left _ (R.known q member)
    · rcases OrderedSet.mem_insert.mp member with rfl | old
      · rcases R.una with least | ⟨-, ends⟩
        · exact (R.below _ ((R.psn _).mp least).1).2.le
        · exact ends.le
      · exact R.least q old
    · show m.sndUna ∈ m.sentPsn.insert m.sndNxt
      rcases R.una with least | ⟨-, ends⟩
      · exact OrderedSet.mem_insert.mpr (.inr least)
      · exact OrderedSet.mem_insert.mpr (.inl ends)
    · rw [same]
      exact R.once
    · rw [same]
      exact R.done
  | @again rest ends timeouted elems =>
    have first : pkt.seq ∈ m.timeoutPsn := by
      rw [OrderedSet.mem_def, elems]
      exact List.mem_cons_self
    have sent := ((R.psn _).mp (R.tracked.sub _ first)).1
    have more : (H.send pkt.seq).again = H.again ++ [pkt.seq] := if_pos sent
    refine ⟨tracked, fun q member => ?_, fun q => ?_, fun q member => ?_, R.least, R.una, ?_,
      fun q member => ?_⟩
    · rcases List.mem_append.mp member with old | last
      · exact R.below q old
      · rw [List.mem_singleton.mp last]
        exact R.below _ sent
    · show q ∈ m.sentPsn ↔ q ∈ H.sent ++ [pkt.seq] ∧ q ∉ H.acked
      rw [R.psn q, List.mem_append, List.mem_singleton]
      constructor
      · rintro ⟨old, open_⟩
        exact ⟨.inl old, open_⟩
      · rintro ⟨old | rfl, open_⟩
        · exact ⟨old, open_⟩
        · exact ⟨sent, open_⟩
    · exact List.mem_append_left _ (R.known q member)
    · rw [more, List.nodup_append]
      refine ⟨R.once, List.nodup_singleton _, fun a old b last => ?_⟩
      rw [List.mem_singleton.mp last]
      rintro rfl
      exact R.done _ old first
    · rw [more] at member
      rintro timeout
      obtain ⟨other, before⟩ := OrderedSet.mem_erase.mp timeout
      rcases List.mem_append.mp member with old | last
      · exact R.done q old before
      · exact other (List.mem_singleton.mp last)
  | stray wraps seq => omega

theorem recorded_recover {m : SndOperation} {H : History} (mode : cfg.mode = .disOrder)
    (R : Recorded cfg m H) : Recorded cfg (m.recover cfg) { H with again := [] } := by
  have same : (m.recover cfg).sndNxt = m.sndNxt := if_pos mode
  refine ⟨tracked_recover mode R.tracked, fun q member => ?_, R.psn, R.known, R.least, ?_,
    List.nodup_nil, nofun⟩
  · rw [same]
    exact R.below q member
  · rw [same]
    exact R.una

theorem recorded_acknowledge {m : SndOperation} {H : History} {ack : ℕ}
    (mode : cfg.mode = .disOrder) (R : Recorded cfg m H) (sent : ack ∈ H.sent) (isLast : Bool) :
    Recorded cfg (m.acknowledge cfg ack isLast) { H with acked := H.acked ++ [ack] } := by
  have tracked := tracked_acknowledge mode R.tracked ack isLast
  have known : ∀ q ∈ H.acked ++ [ack], q ∈ H.sent := by
    intro q member
    rcases List.mem_append.mp member with old | last
    · exact R.known q old
    · rw [List.mem_singleton.mp last]
      exact sent
  unfold SndOperation.acknowledge at tracked ⊢
  rw [if_pos mode] at tracked ⊢
  dsimp only at tracked ⊢
  by_cases outstanding : ack ∈ m.sentPsn
  · rw [if_pos outstanding] at tracked ⊢
    refine ⟨tracked, R.below, fun q => ?_, known, fun q member => ?_, ?_, R.once,
      fun q old timeout => ?_⟩
    · show q ∈ m.sentPsn.erase ack ↔ q ∈ H.sent ∧ q ∉ H.acked ++ [ack]
      rw [OrderedSet.mem_erase, R.psn q, List.mem_append, List.mem_singleton, not_or]
      tauto
    · cases left : (m.sentPsn.erase ack).elems with
      | nil =>
        rw [OrderedSet.mem_def, left] at member
        cases member
      | cons first rest => exact OrderedSet.head_le left q member
    · show (m.sentPsn.erase ack).elems.head?.getD m.sndNxt ∈ m.sentPsn.erase ack ∨
        (m.sentPsn.erase ack).elems = [] ∧
          (m.sentPsn.erase ack).elems.head?.getD m.sndNxt = m.sndNxt
      cases left : (m.sentPsn.erase ack).elems with
      | nil => exact .inr ⟨rfl, rfl⟩
      | cons first rest =>
        left
        rw [OrderedSet.mem_def, left]
        exact List.mem_cons_self
    · exact R.done q old (OrderedSet.mem_of_erase timeout)
  · rw [if_neg outstanding] at tracked ⊢
    refine ⟨tracked, R.below, fun q => ?_, known, R.least, R.una, R.once, R.done⟩
    show q ∈ m.sentPsn ↔ q ∈ H.sent ∧ q ∉ H.acked ++ [ack]
    rw [List.mem_append, List.mem_singleton, not_or, R.psn q]
    constructor
    · rintro ⟨old, open_⟩
      exact ⟨old, open_, fun same => outstanding (same ▸ (R.psn q).mpr ⟨old, open_⟩)⟩
    · rintro ⟨old, open_, -⟩
      exact ⟨old, open_⟩

/-! ### Runs -/

/-- Data packets and acknowledgements in flight carry sequence numbers that were sent, and no
acknowledgement is a NACK. -/
structure Echoed (s : Session) (H : History) : Prop where
  data : ∀ pkt ∈ s.data, pkt.seq ∈ H.sent
  acks : ∀ ack ∈ s.acks, ack.ackType = .ack ∧ ack.seq ∈ H.sent

theorem receiveUdp_echo {r r' : Receiver} {pkt : DataPacket} {expired : Bool}
    {ack : Option AckPacket}
    (mode : cfg.mode = .disOrder) (h : r.receiveUdp cfg pkt expired = some (r', ack)) :
    ∀ a ∈ ack, a.ackType = .ack ∧ a.seq = pkt.seq := by
  rcases receiveUdp_cases h with ⟨-, -, rfl⟩ | ⟨-, rx, x, nackSeq, -, -, outcome⟩
  · exact fun _ => nofun
  rcases outcome with ⟨-, -, rfl⟩ | ⟨_, -, -, -, x', answer, answers, rfl⟩
  · exact fun _ => nofun
  have positive : x' = .ack := by
    unfold RxOperation.answer at answer
    rw [if_pos mode] at answer
    rcases answers with ack | nack
    · exact ack
    · rw [nack] at answer
      split at answer
      · split at answer <;> cases answer
      · cases answer
  intro a same
  obtain rfl := Option.mem_some_iff.mp same
  unfold RxOperation.ackFor
  rw [if_neg (by simp [mode]), positive]
  exact ⟨rfl, if_neg (by simp [mode])⟩

theorem record_sent {s : Session} {H : History} {u t : Sender} {pkt : DataPacket}
    (ready : s.snd.shouldSndData cfg = (u, true)) (sent : u.getNxtPacket cfg = some (t, pkt)) :
    H.record cfg s (.send true) = H.send pkt.seq := by
  unfold History.record
  rw [ready]
  simp only [Bool.and_true, sent]

theorem record_acked {s : Session} {k : ℕ} {ack : AckPacket} (H : History)
    (here : s.acks[k]? = some ack) : H.record cfg s (.ackArrives k) =
      if s.snd.Takes cfg then { H with acked := H.acked ++ [ack.seq] } else H := by
  simp only [History.record, here]

theorem sent_subset (s : Session) (H : History) (ev : Event) :
    H.sent ⊆ (H.record cfg s ev).sent := by
  unfold History.record
  split
  · dsimp only
    split
    · exact List.subset_append_left _ _
    · exact List.Subset.refl _
  · split <;> exact List.Subset.refl _
  · split
    · split <;> exact List.Subset.refl _
    · exact List.Subset.refl _
  · exact List.Subset.refl _

theorem echoed_step {s t : Session} {H : History} {ev : Event} (mode : cfg.mode = .disOrder)
    (E : Echoed s H) (h : s.step cfg ev = some t) : Echoed t (H.record cfg s ev) := by
  have kept := @sent_subset cfg s H ev
  cases step_travel h with
  | carried _ data acks =>
    refine ⟨fun pkt member => kept (E.data pkt (data member)), fun ack member => ?_⟩
    obtain ⟨kind, sent⟩ := E.acks ack (acks member)
    exact ⟨kind, kept sent⟩
  | @sent u pkt ready sent _ data acks =>
    refine ⟨fun x member => ?_, fun ack member => ?_⟩
    · rw [data] at member
      rcases List.mem_append.mp member with old | new
      · exact kept (E.data x old)
      · rw [List.mem_singleton.mp new, record_sent ready sent]
        exact List.mem_append_right _ (List.mem_singleton_self _)
    · rw [acks] at member
      obtain ⟨kind, sent⟩ := E.acks ack member
      exact ⟨kind, kept sent⟩
  | @arrived pkt _ _ ack arrives receive data acks =>
    refine ⟨fun x member => E.data x (data member), fun a member => ?_⟩
    rw [acks] at member
    rcases List.mem_append.mp member with old | new
    · exact E.acks a old
    · obtain ⟨kind, seq⟩ := receiveUdp_echo mode receive a (by simpa using new)
      rw [seq]
      exact ⟨kind, E.data pkt arrives⟩

theorem recorded_step {s t : Session} {H : History} {ev : Event} (mode : cfg.mode = .disOrder)
    (plain : cfg.Plain)
    (R : Recorded cfg s.snd.msg H) (E : Echoed s H) (h : s.step cfg ev = some t) :
    Recorded cfg t.snd.msg (H.record cfg s ev) := by
  cases ev with
  | send allowed =>
    have same : (s.snd.shouldSndData cfg).1 = s.snd := shouldSndData_plain (by simp [mode])
    rcases send_cases h with ⟨stays, rfl⟩ | ⟨rfl, u, snd, pkt, ready, sent, rfl⟩
    · have unchanged : H.record cfg s (.send allowed) = H := by
        unfold History.record
        dsimp only
        rw [stays]
      rw [unchanged, same]
      exact R
    · rw [record_sent ready sent]
      rw [ready] at same
      obtain rfl : u = s.snd := same
      obtain ⟨snd', pkt', sent', sending⟩ :=
        getNxtPacket_sending mode R.tracked (shouldSndData_ready ready)
      rw [sent] at sent'
      cases sent'
      exact recorded_sending plain.1 R sending
  | timeout =>
    cases h
    show Recorded cfg (s.snd.recoverMSG cfg).msg
      (if s.snd.finished then H else { H with again := [] })
    unfold Sender.recoverMSG
    split
    · exact R
    · exact recorded_recover mode R
  | irnTimer seq =>
    simp only [Session.step] at h
    split at h
    · cases h
      show Recorded cfg (s.snd.irnTimerHandler cfg seq).msg H
      unfold Sender.irnTimerHandler
      dsimp only
      split
      · exact ⟨tracked_congr R.tracked rfl rfl rfl rfl, R.below, R.psn, R.known, R.least, R.una,
          R.once, R.done⟩
      · exact R
    · cases h
  | ackArrives k =>
    obtain ⟨ack, here, h⟩ := Option.bind_eq_some_iff.mp h
    obtain ⟨snd, received, h⟩ := Option.bind_eq_some_iff.mp h
    cases h
    obtain ⟨kind, sent⟩ := E.acks ack (List.mem_of_getElem? here)
    have same : cfg.ackedSeq ack.seq = ack.seq := plain.2 _ (R.below _ sent).1
    refine receive_keeps (P := fun m => Recorded cfg m (H.record cfg s (.ackArrives k)))
      (by simp [mode]) (fun ignored => ?_) (fun takes => ?_) (fun nack => ?_) received
    · rw [record_acked H here, if_neg ignored]
      exact R
    · rw [record_acked H here, if_pos takes, same]
      exact recorded_acknowledge mode R sent ack.last
    · rw [kind] at nack
      cases nack
  | dataArrives k expired =>
    obtain ⟨pkt, -, h⟩ := Option.bind_eq_some_iff.mp h
    obtain ⟨r, -, h⟩ := Option.bind_eq_some_iff.mp h
    cases h
    exact R
  | loseData k =>
    cases h
    exact R
  | loseAck k =>
    cases h
    exact R
  | duplicateData k =>
    obtain ⟨pkt, -, rfl⟩ := Option.map_eq_some_iff.mp h
    exact R
  | duplicateAck k =>
    obtain ⟨ack, -, rfl⟩ := Option.map_eq_some_iff.mp h
    exact R

theorem recorded_traced {s : Session} {H : History} (mode : cfg.mode = .disOrder)
    (plain : cfg.Plain)
    (traced : Session.Traced cfg s H) : Recorded cfg s.snd.msg H ∧ Echoed s H := by
  induction traced with
  | initial => exact ⟨recorded_initial cfg, fun _ => nofun, fun _ => nofun⟩
  | step _ h before =>
    exact ⟨recorded_step mode plain before.1 before.2 h, echoed_step mode before.2 h⟩

/-! ### What the bookkeeping says -/

/-- The bytes of a set of packets of the message are counted without wrapping around. -/
theorem psnBytes_exact {psns : OrderedSet} (aligned : ∀ q ∈ psns, Aligned cfg q) :
    SndOperation.psnBytes cfg psns = ∑ q ∈ psns.toFinset, cfg.payloadAt q := by
  have same : ∑ q ∈ psns.toFinset, cfg.counted q = ∑ q ∈ psns.toFinset, cfg.payloadAt q :=
    Finset.sum_congr rfl fun q member =>
      counted_aligned (aligned q (OrderedSet.mem_toFinset.mp member))
  have most : ∑ q ∈ psns.toFinset, cfg.payloadAt q ≤ cfg.size :=
    sum_payloadAt_le fun q member => (aligned q (OrderedSet.mem_toFinset.mp member)).1
  rw [psnBytes_counted, same, Nat.mod_eq_of_lt (most.trans_lt cfg.size_lt)]

/-- What a dis-order sender keeps is exact: the sets, `snd_una`, the bytes in flight and the bytes
left; no assert fails, and between two recoveries no packet is sent again twice. -/
structure Exact (cfg : Config) (s : Sender) (H : History) : Prop where
  sub : ∀ q ∈ s.msg.timeoutPsn, q ∈ s.msg.sentPsn
  psn : ∀ q, q ∈ s.msg.sentPsn ↔ q ∈ H.sent ∧ q ∉ H.acked
  una : s.msg.sndUna ∈ s.msg.sentPsn ∧ (∀ q ∈ s.msg.sentPsn, s.msg.sndUna ≤ q) ∨
    s.msg.sentPsn.elems = [] ∧ s.msg.sndUna = s.msg.sndNxt
  onTheFly : s.msg.getOnTheFly cfg = some (∑ q ∈ if s.msg.timeouted then
    s.msg.sentPsn.toFinset \ s.msg.timeoutPsn.toFinset else s.msg.sentPsn.toFinset, cfg.payloadAt q)
  left : s.msg.getBytesLeft cfg = 0 → s.msg.sndNxt = cfg.size ∧ s.msg.timeoutPsn.elems = []
  sends : ∀ u, s.shouldSndData cfg = (u, true) → ∃ t pkt, u.getNxtPacket cfg = some (t, pkt)
  once : H.again.Nodup

theorem recorded_exact {s : Sender} {H : History} (mode : cfg.mode = .disOrder) (plain : cfg.Plain)
    (R : Recorded cfg s.msg H) : Exact cfg s H := by
  have sent : ∀ q ∈ s.msg.sentPsn, Aligned cfg q :=
    fun q member => (R.below q ((R.psn q).mp member).1).1
  have timeout : ∀ q ∈ s.msg.timeoutPsn, Aligned cfg q :=
    fun q member => sent q (R.tracked.sub q member)
  refine ⟨R.tracked.sub, R.psn, R.una.imp_left fun member => ⟨member, R.least⟩, ?_, fun none => ?_,
    fun u ready => ?_, R.once⟩
  · have sub : s.msg.timeoutPsn.toFinset ⊆ s.msg.sentPsn.toFinset := fun q member =>
      OrderedSet.mem_toFinset.mpr (R.tracked.sub q (OrderedSet.mem_toFinset.mp member))
    have parts : ∑ q ∈ s.msg.sentPsn.toFinset \ s.msg.timeoutPsn.toFinset, cfg.payloadAt q +
        ∑ q ∈ s.msg.timeoutPsn.toFinset, cfg.payloadAt q = ∑ q ∈ s.msg.sentPsn.toFinset,
          cfg.payloadAt q :=
      Finset.sum_sdiff sub
    unfold SndOperation.getOnTheFly
    rw [mode]
    dsimp only
    rw [psnBytes_exact sent, psnBytes_exact timeout]
    split
    · rw [if_neg (by omega), ← parts, Nat.add_sub_cancel]
    · rfl
  · unfold SndOperation.getBytesLeft at none
    dsimp only at none
    rw [if_neg (by simp [mode])] at none
    have pos := cfg.mtu_pos
    split at none
    · rename_i recovering
      have some_psn := List.length_pos_iff.mpr recovering.2.2
      split at none
      · split at none <;> omega
      · rcases Nat.mul_eq_zero.mp none with zero | zero <;> omega
    · rename_i calm
      refine ⟨(R.tracked.no_wrap plain.1).2.resolve_left fun aligned => ?_, ?_⟩
      · have lt := aligned.2
        omega
      · by_contra some_timeout
        cases timeouted : s.msg.timeouted with
        | false => exact some_timeout (R.tracked.idle timeouted)
        | true => exact calm ⟨mode, timeouted, some_timeout⟩
  · have same : (s.shouldSndData cfg).1 = s := shouldSndData_plain (by simp [mode])
    rw [ready] at same
    obtain rfl : u = s := same
    obtain ⟨t, pkt, sent, -⟩ := getNxtPacket_sending mode R.tracked (shouldSndData_ready ready)
    exact ⟨t, pkt, sent⟩

/-- As long as sequence numbers do not wrap around and an acknowledgement acknowledges its own
packet, the bookkeeping of a dis-order sender is exact. -/
theorem disOrder_exact {s : Session} {H : History} (mode : cfg.mode = .disOrder) (plain : cfg.Plain)
    (traced : Session.Traced cfg s H) : Exact cfg s.snd H :=
  recorded_exact mode plain (recorded_traced mode plain traced).1

def Session.traceRun (cfg : Config) (evs : List Event) : Option (Session × History) :=
  evs.foldlM (fun (s, H) ev => (s.step cfg ev).map fun t => (t, H.record cfg s ev)) ({}, {})

theorem traced_run {evs : List Event} {s : Session} {H : History}
    (ends : Session.traceRun cfg evs = some (s, H)) : Session.Traced cfg s H := by
  have from_any : ∀ (evs : List Event) (s₀ : Session) (H₀ : History), Session.Traced cfg s₀ H₀ →
      evs.foldlM (fun (s, H) ev => (s.step cfg ev).map fun t => (t, H.record cfg s ev)) (s₀, H₀) =
        some (s, H) →
      Session.Traced cfg s H := by
    intro evs
    induction evs with
    | nil =>
      intro s₀ H₀ traced ends
      cases ends
      exact traced
    | cons ev rest ih =>
      intro s₀ H₀ traced ends
      obtain ⟨⟨s₁, H₁⟩, first, ends⟩ :=
        Option.bind_eq_some_iff.mp ((List.foldlM_cons ..).symm.trans ends)
      obtain ⟨t, h, same⟩ := Option.map_eq_some_iff.mp first
      cases same
      exact ih _ _ (.step traced h) ends
  exact from_any evs {} {} .initial ends

/-- The second of three packets is acknowledged, the sender recovers and sends the first one
again. -/
def recoveredOutOfOrder : List Event :=
  [.send true, .send true, .send true, .dataArrives 1 false, .ackArrives 0, .timeout, .send true]

theorem disOrder_exact_recovered :
    ∃ s H, H = { sent := [0, 10, 20, 0], acked := [10], again := [0] } ∧
    Exact (Session.smallConfig .disOrder 25) s H := by
  have ends : ∃ s, Session.traceRun (Session.smallConfig .disOrder 25) recoveredOutOfOrder =
      some (s, { sent := [0, 10, 20, 0], acked := [10], again := [0] }) := ⟨_, rfl⟩
  obtain ⟨s, ends⟩ := ends
  exact ⟨s.snd, _, rfl, disOrder_exact rfl ⟨by decide, fun _ _ => rfl⟩ (traced_run ends)⟩

/-- With `m_backto0`, an acknowledgement acknowledges the first packet of its chunk. -/
theorem disOrder_inexact : ∃ s H, Session.Traced
    { Session.smallConfig .disOrder 25 with backto0 := true } s H ∧
    H = { sent := [0, 10], acked := [10] } ∧ s.snd.msg.sentPsn.elems = [10] ∧
      s.snd.msg.sndUna = 10 := by
  have ends : ∃ s, Session.traceRun { Session.smallConfig .disOrder 25 with backto0 := true }
      [.send true, .send true, .dataArrives 1 false, .ackArrives 0] =
      some (s, { sent := [0, 10], acked := [10] }) ∧ s.snd.msg.sentPsn.elems = [10] ∧
        s.snd.msg.sndUna = 10 := by
    refine ⟨_, rfl, ?_⟩
    decide
  obtain ⟨s, ends, sent, una⟩ := ends
  exact ⟨s, _, traced_run ends, rfl, sent, una⟩

end Rdma

end Pyrrha

import Pyrrha.Rdma.Bitmap
import Pyrrha.Rdma.SndBitmap

/-!
Selective acknowledgements that arrive in the order they were sent in, if they arrive. Together with
what the receiver has in its own bitmap, the order makes that of the sender exact: a SACK never
reports a packet that was acknowledged.
-/

namespace Pyrrha
open Lib

namespace Rdma

variable {cfg : Config} {s t : Session}

/-! ### Runs with their acknowledgements -/

/-- No recovery, and acknowledgements come in order: they may be lost, but not repeated. -/
def Event.InOrder : Event → Prop
  | .timeout | .duplicateAck _ => False
  | .ackArrives k => k = 0
  | _ => True

instance (ev : Event) : Decidable ev.InOrder :=
  match ev with
  | .timeout | .duplicateAck _ => isFalse id
  | .ackArrives k => inferInstanceAs (Decidable (k = 0))
  | .send _ | .irnTimer _ | .dataArrives .. | .loseData _ | .loseAck _ | .duplicateData _ =>
      isTrue trivial

/-- The acknowledgement that the sender processes. -/
def Event.processed (cfg : Config) (s : Session) : Event → Option AckPacket
  | .ackArrives k => if s.snd.Takes cfg then s.acks[k]? else none
  | _ => none

/-- The runs in order, with the acknowledgements that were processed. -/
inductive Acknowledged (cfg : Config) : List AckPacket → Session → Prop where
  | initial : Acknowledged cfg [] {}
  | step {processed : List AckPacket} {s t : Session} {ev : Event} : Acknowledged cfg processed s →
      ev.InOrder →
      s.step cfg ev = some t → Acknowledged cfg (processed ++ (ev.processed cfg s).toList) t

def Session.runAcknowledged (cfg : Config) (start : List AckPacket × Session) (evs : List Event) :
    Option (List AckPacket × Session) :=
  evs.foldlM (fun x ev =>
    if ev.InOrder then (x.2.step cfg ev).map fun t => (x.1 ++ (ev.processed cfg x.2).toList, t)
      else none) start

theorem acknowledged_run {evs : List Event} {x y : List AckPacket × Session}
    (start : Acknowledged cfg x.1 x.2)
    (ends : Session.runAcknowledged cfg x evs = some y) : Acknowledged cfg y.1 y.2 := by
  induction evs generalizing x with
  | nil =>
    cases ends
    exact start
  | cons ev rest ih =>
    obtain ⟨mid, first, ends⟩ := Option.bind_eq_some_iff.mp ((List.foldlM_cons ..).symm.trans ends)
    split at first
    · rename_i ordered
      obtain ⟨t, step, rfl⟩ := Option.map_eq_some_iff.mp first
      exact ih (.step start ordered step) ends
    · cases first

/-- Some processed acknowledgement names the packet. -/
def Named (processed : List AckPacket) (q : ℕ) : Prop := ∃ ack ∈ processed, ack.seq = q

theorem named_append {processed : List AckPacket} {ack : AckPacket} {q : ℕ} :
    Named (processed ++ [ack]) q ↔ Named processed q ∨ q = ack.seq := by
  unfold Named
  simp only [List.mem_append, List.mem_singleton, or_and_right, exists_or, exists_eq_left]
  rw [eq_comm (a := ack.seq)]

/-! ### The receiver -/

/-- The bitmap of the receiver is the one of the packets it has checked. -/
def RcvBitmap (cfg : Config) (r : Receiver) : Prop :=
  r.finished = false → Bitmap cfg.mtu (r.operation cfg).irn (r.checked.map DataPacket.seq).reverse

/-- An acknowledgement as it is sent: it names the packet that has arrived, and what a SACK reports
comes after all packets that had arrived before. -/
structure Fresh (ack : AckPacket) (pkt : DataPacket) (checked : List DataPacket) : Prop where
  seq : ack.seq = pkt.seq
  skips : ack.ackType = .sack → ack.nackSeq < ack.seq
  beyond : ack.ackType = .sack → ∀ old ∈ checked, old.seq < ack.nackSeq

theorem bitmap_next {p : ℕ} {received : List ℕ} {irn : RxIrn} (pos : 0 < p)
    (B : Bitmap p irn received) (aligned : ∀ q ∈ received, p ∣ q) {q : ℕ} (member : q ∈ received) :
    q < irn.getNextSequenceNumber p := by
  have ahead : SkipsAhead p received (irn.getNextSequenceNumber p + 1) :=
    (skipsAhead_iff B aligned).mpr (Nat.lt_succ_self _)
  have := ahead.2 q member
  omega

theorem answer_irn_nack {x : SeqCheck} {all : Bool} (mode : cfg.mode = .irn)
    (h : RxOperation.answer cfg x all = .nack) : x = .nack := by
  have other : ¬cfg.mode = .disOrder := by simp [mode]
  unfold RxOperation.answer at h
  dsimp only at h
  rw [if_neg other] at h
  split at h
  · split at h <;> cases h
  · exact h

theorem receiveUdp_fresh {r r' : Receiver} {pkt : DataPacket} {expired : Bool}
    {ack : Option AckPacket} (mode : cfg.mode = .irn) (fits : cfg.lastEnd < 2 ^ 32)
    (checked : ∀ pkt ∈ r.checked, Sound cfg pkt)
    (B : RcvBitmap cfg r) (sound : Sound cfg pkt) (h : r.receiveUdp cfg pkt expired =
      some (r', ack)) :
    RcvBitmap cfg r' ∧ ∀ a ∈ ack, Fresh a pkt r.checked := by
  rcases receiveUdp_cases h with ⟨-, rfl, rfl⟩ | ⟨running, rx, x, nackSeq, check, grows, outcome⟩
  · exact ⟨B, fun _ none => (Option.not_mem_none _ none).elim⟩
  have dvd := sound.aligned mode
  have ends := aligned_lastEnd ⟨dvd, sound.seq_lt⟩
  have before := B running
  have aligned : ∀ q ∈ (r.checked.map DataPacket.seq).reverse, cfg.mtu ∣ q := by
    intro q member
    obtain ⟨old, old_member, rfl⟩ := List.mem_map.mp (List.mem_reverse.mp member)
    exact (checked old old_member).aligned mode
  rw [RxOperation.receiverCheckSeq, if_pos mode] at check
  obtain ⟨rx', reply, call, answers, after⟩ :=
    @apply_bitmap _ _ (r.operation cfg) (.receiverCheckSeq pkt.seq) cfg.mtu_pos
    before aligned dvd (ends.trans_lt fits)
  simp only [IrnCall.apply, check, Option.bind_eq_bind, Option.bind_some, Option.some.injEq,
    Prod.mk.injEq] at call
  obtain ⟨rfl, rfl⟩ := call
  obtain ⟨skips, expected⟩ := answers _ rfl
  rw [IrnCall.seq, skipsAhead_iff before aligned] at skips
  have kept : Bitmap cfg.mtu (rx.record pkt).irn (r'.checked.map DataPacket.seq).reverse := by
    rw [grows, List.map_append, List.reverse_append]
    exact after
  rcases outcome with ⟨stored, -, rfl⟩ | ⟨done, -, stored, finished, x', eq, -, rfl⟩
  · refine ⟨fun _ => ?_, fun _ none => (Option.not_mem_none _ none).elim⟩
    rw [Receiver.operation, stored]
    exact kept
  · refine ⟨fun active => ?_, fun a same => ?_⟩
    · rw [Receiver.operation, stored, if_neg (by rw [← finished, active]; exact Bool.false_ne_true)]
      exact kept
    · obtain rfl := Option.mem_some_iff.mp same
      unfold RxOperation.ackFor
      split
      · rename_i sack
        have nacked := answer_irn_nack mode (eq.symm.trans sack.2)
        have reported : nackSeq = _ := expected nacked
        rw [reported]
        refine ⟨rfl, fun _ => skips.mp nacked, fun _ old member => ?_⟩
        exact bitmap_next cfg.mtu_pos before aligned
          (List.mem_reverse.mpr (List.mem_map_of_mem member))
      · refine ⟨?_, fun sack => ?_, fun sack => ?_⟩
        · have other : ¬cfg.mode = .goBackN := by simp [mode]
          exact if_neg other
        all_goals
          dsimp only at sack
          split at sack <;> cases sack

/-! ### The sender -/

/-- What the sender does with an acknowledgement in IRN. -/
structure TakesAck (cfg : Config) (s : Sender) (ack : AckPacket) (t : Sender) : Prop where
  timers : t.timers = s.timers
  ignored : ¬s.Takes cfg → t.msg.irn = s.msg.irn
  acked : s.Takes cfg → ack.ackType = .ack → t.msg.irn = s.msg.irn.ackIrnState cfg.mtu ack.seq
  sacked : s.Takes cfg → ack.ackType = .sack →
    ∃ rtx, loop32 cfg.mtu ack.seq (2 ^ 32 + 1) ack.nackSeq = some rtx ∧
    t.msg.irn = { s.msg.irn.sackIrnState cfg.mtu ack.seq ack.nackSeq with
      rtxSeqQueues := (s.msg.irn.sackIrnState cfg.mtu ack.seq ack.nackSeq).rtxSeqQueues ++ rtx }

theorem moveToSending_keeps {s t : Sender} (h : s.moveToSending = some t) :
    t.timers = s.timers ∧ t.msg = s.msg ∧ t.finished = s.finished := by
  unfold Sender.moveToSending at h
  split at h
  · cases h
    exact ⟨rfl, rfl, rfl⟩
  split at h
  · cases h
  · cases h
    exact ⟨rfl, rfl, rfl⟩

theorem receive_takes {s t : Sender} {ack : AckPacket} (mode : cfg.mode = .irn)
    (kind : ack.ackType ≠ .nack) (h : s.receive cfg ack = some t) : TakesAck cfg s ack t := by
  have same : s.finished = true ∨ cfg.mibo = true ∨ cfg.ackInterval = 0 →
    ∀ {u : Sender}, u.timers = s.timers → u.msg.irn = s.msg.irn → TakesAck cfg s ack u := by
    intro ignores u timers irn
    have closed : ¬s.Takes cfg := by
      rintro ⟨active, plain, interval⟩
      rcases ignores with finished | mibo | zero
      · rw [active] at finished
        cases finished
      · rw [plain] at mibo
        cases mibo
      · exact interval zero
    exact ⟨timers, fun _ => irn, fun takes => absurd takes closed, fun takes => absurd takes closed⟩
  unfold Sender.receive at h
  cases type : ack.ackType with
  | nack => exact absurd type kind
  | ack =>
    rw [type] at h
    dsimp only at h
    unfold Sender.receiveAck at h
    split at h
    · rename_i finished
      cases h
      exact same (.inl finished) rfl rfl
    split at h
    · rename_i mibo
      split at h
      · cases h
        exact same (.inr (.inl mibo)) rfl rfl
      · cases h
    rw [if_neg (by simp [type])] at h
    cases h
    unfold Sender.takeAck
    split
    · rename_i zero
      exact same (.inr (.inr zero)) rfl rfl
    · rename_i active plain interval
      have takes : s.Takes cfg :=
        ⟨Bool.eq_false_of_not_eq_true active, Bool.eq_false_of_not_eq_true plain, interval⟩
      have irn := (acknowledge_cursors { s.msg with irn := s.msg.irn.ackIrnState cfg.mtu ack.seq }
        mode ack.seq ack.last).1
      generalize { s.msg with irn := s.msg.irn.ackIrnState cfg.mtu ack.seq }.acknowledge cfg ack.seq
        ack.last = m at *
      dsimp only at irn ⊢
      refine ⟨?_, fun ignores => absurd takes ignores, fun _ _ => ?_, fun _ sack => ?_⟩
      · split <;> rfl
      · split <;> exact irn
      · rw [type] at sack
        cases sack
  | sack =>
    rw [type] at h
    dsimp only at h
    unfold Sender.receiveSack at h
    rw [if_neg (by simp [mode])] at h
    split at h
    · rename_i finished
      cases h
      exact same (.inl finished) rfl rfl
    split at h
    · rename_i mibo
      split at h
      · cases h
        exact same (.inr (.inl mibo)) rfl rfl
      · cases h
    split at h
    · rename_i zero
      cases h
      exact same (.inr (.inr zero)) rfl rfl
    rename_i active plain interval
    have takes : s.Takes cfg :=
      ⟨Bool.eq_false_of_not_eq_true active, Bool.eq_false_of_not_eq_true plain, interval⟩
    obtain ⟨rtx, loop, h⟩ := Option.bind_eq_some_iff.mp h
    obtain ⟨v, moved, h⟩ := Option.bind_eq_some_iff.mp h
    have kept : v.timers = s.timers ∧ v.msg.irn =
        { s.msg.irn.sackIrnState cfg.mtu ack.seq ack.nackSeq with
        rtxSeqQueues := (s.msg.irn.sackIrnState cfg.mtu ack.seq ack.nackSeq).rtxSeqQueues ++
          rtx } := by
      obtain ⟨timers, msg, -⟩ := moveToSending_keeps moved
      exact ⟨timers, congrArg SndOperation.irn msg⟩
    have after : t.timers = v.timers ∧ t.msg = v.msg := by
      split at h <;> cases h <;> exact ⟨rfl, rfl⟩
    refine ⟨after.1.trans kept.1, fun ignores => absurd takes ignores, fun _ acked => ?_,
      fun _ _ => ⟨rtx, loop, ?_⟩⟩
    · rw [type] at acked
      cases acked
    · rw [after.2]
      exact kept.2

theorem getNxtPacket_irn {u t : Sender} {pkt : DataPacket} (mode : cfg.mode = .irn)
    (h : u.getNxtPacket cfg = some (t, pkt)) :
    t.timers = u.timers ++ [pkt.seq] ∧
      (u.msg.irn.isMissing cfg.mtu pkt.seq = true ∧ (∃ rtx, t.msg.irn =
        { u.msg.irn with rtxSeqQueues := rtx }.setSeqState cfg.mtu pkt.seq .unack) ∨
      (Sender.popRtx cfg.mtu u.msg.irn u.msg.irn.rtxSeqQueues).1 = none ∧ ∃ rtx payload, t.msg.irn =
        { u.msg.irn with rtxSeqQueues := rtx }.sendNewPacket payload) := by
  obtain ⟨⟨seq, payload, m⟩, next, h⟩ := Option.bind_eq_some_iff.mp h
  cases h
  refine ⟨if_pos mode, ?_⟩
  unfold Sender.nextPacket at next
  rw [if_pos mode] at next
  cases popped : Sender.popRtx cfg.mtu u.msg.irn u.msg.irn.rtxSeqQueues with
  | mk found rest =>
    rw [popped] at next
    cases found with
    | some q =>
      obtain ⟨rfl, rfl, rfl⟩ : q = seq ∧ _ = payload ∧ _ = m := by simpa using next
      exact .inl ⟨(popRtx_some popped).2.1, rest, rfl⟩
    | none =>
      obtain ⟨⟨q, v, m'⟩, picked, rest_eq⟩ := Option.bind_eq_some_iff.mp next
      obtain ⟨rfl, rfl, rfl⟩ : q = seq ∧ v = payload ∧ _ = m := by simpa using rest_eq
      refine .inr ⟨rfl, rest, v, ?_⟩
      have same : m'.irn = u.msg.irn := by
        unfold SndOperation.getNxtPayload SndOperation.nextPsn at picked
        rw [if_pos (by simp [mode])] at picked
        simp only [Option.bind_eq_bind, Option.bind_some, Option.some.injEq,
          Prod.mk.injEq] at picked
        rw [← picked.2.2]
      dsimp only
      rw [same]

/-! ### Both ends -/

/-- A SACK reports packets beyond the one an earlier acknowledgement names. -/
def Precedes (before after : AckPacket) : Prop := after.ackType = .sack → before.seq < after.nackSeq

/-- The bitmaps of both ends, and the acknowledgements one behind another. -/
structure Agreed (cfg : Config) (processed : List AckPacket) (s : Session) : Prop where
  bits : Bits cfg s.snd.msg.irn (Named processed)
  sent : ∀ pkt, pkt ∈ s.data ∨ pkt ∈ s.rcv.checked → pkt.seq ∈ s.snd.timers
  rcv : RcvBitmap cfg s.rcv
  seen : ∀ ack ∈ processed, Seen s.rcv.checked ack.seq
  skips : ∀ ack ∈ s.acks, ack.ackType = .sack → ack.nackSeq < ack.seq
  order : (processed ++ s.acks).Pairwise Precedes

variable {processed : List AckPacket}

theorem agreed_initial (cfg : Config) : Agreed cfg [] {} where
  bits := {
    acked q _ := by
      unfold SndIrn.Acked Named
      simp
    known := List.not_mem_nil }
  sent pkt member := by simp at member
  rcv _ := bitmap_nil cfg.mtu
  seen ack member := by cases member
  skips ack member := by cases member
  order := List.Pairwise.nil

/-- The sender moves, and the network loses packets and repeats data. -/
theorem agreed_carried (E : Agreed cfg processed s)
    (bits : Bits cfg t.snd.msg.irn (Named processed))
    (timers : s.snd.timers ⊆ t.snd.timers) (rcv : t.rcv = s.rcv) (data : t.data ⊆ s.data)
    (acks : t.acks.Sublist s.acks) : Agreed cfg processed t where
  bits := bits
  sent pkt member := timers (E.sent pkt (by rw [rcv] at member; exact member.imp_left (data ·)))
  rcv := rcv ▸ E.rcv
  seen := rcv ▸ E.seen
  skips ack member := E.skips ack (acks.subset member)
  order := E.order.sublist ((List.Sublist.refl processed).append acks)

theorem shouldSndData_bits {u : Sender} {named : ℕ → Prop} (B : Bits cfg u.msg.irn named) :
    Bits cfg (u.shouldSndData cfg).1.msg.irn named ∧ (u.shouldSndData cfg).1.timers = u.timers := by
  unfold Sender.shouldSndData
  dsimp only
  split
  · exact ⟨B, rfl⟩
  split
  · split <;> exact ⟨bits_congr B rfl rfl, rfl⟩
  · exact ⟨B, rfl⟩

theorem getNxtPacket_bits {u v : Sender} {pkt : DataPacket} {named : ℕ → Prop}
    (mode : cfg.mode = .irn)
    (B : Bits cfg u.msg.irn named) (h : u.getNxtPacket cfg = some (v, pkt)) :
    Bits cfg v.msg.irn named ∧ v.timers = u.timers ++ [pkt.seq] := by
  obtain ⟨timers, ⟨missing, rtx, irn⟩ | ⟨-, rtx, payload, irn⟩⟩ := getNxtPacket_irn mode h
  · rw [irn]
    exact ⟨bits_again (bits_congr B rfl rfl) missing (.inl rfl), timers⟩
  · rw [irn]
    exact ⟨bits_send (bits_congr B rfl rfl), timers⟩

theorem irnTimerHandler_bits {u : Sender} {named : ℕ → Prop} {seq : ℕ}
    (B : Bits cfg u.msg.irn named) :
    Bits cfg (u.irnTimerHandler cfg seq).msg.irn named ∧ (u.irnTimerHandler cfg seq).timers =
      u.timers := by
  unfold Sender.irnTimerHandler
  dsimp only
  split
  · rename_i missing
    exact ⟨bits_congr (bits_again B missing (.inr rfl)) rfl rfl, rfl⟩
  · exact ⟨B, rfl⟩

theorem agreed_send {allowed : Bool} (mode : cfg.mode = .irn) (E : Agreed cfg processed s)
    (h : s.send cfg allowed = some t) : Agreed cfg processed t := by
  have checked := @shouldSndData_bits cfg s.snd _ E.bits
  rcases send_cases h with ⟨-, rfl⟩ | ⟨-, u, snd, pkt, ready, sent, rfl⟩
  · have timers : s.snd.timers ⊆ (s.snd.shouldSndData cfg).1.timers := by
      rw [checked.2]
      exact List.Subset.refl _
    exact agreed_carried E checked.1 timers rfl (List.Subset.refl _) (List.Sublist.refl _)
  · rw [ready] at checked
    obtain ⟨bits, timers⟩ := getNxtPacket_bits mode checked.1 sent
    rw [checked.2] at timers
    refine ⟨bits, fun x member => ?_, E.rcv, E.seen, E.skips, E.order⟩
    dsimp only at member ⊢
    rw [timers, List.mem_append, List.mem_singleton]
    rw [List.mem_append, List.mem_singleton] at member
    rcases member with (old | rfl) | checked
    · exact .inl (E.sent x (.inl old))
    · exact .inr rfl
    · exact .inl (E.sent x (.inr checked))

theorem agreed_arrives {k : ℕ} {expired : Bool} (mode : cfg.mode = .irn)
    (fits : cfg.lastEnd < 2 ^ 32)
    (N : Network cfg s) (E : Agreed cfg processed s) (h : s.dataArrives cfg k expired = some t) :
    Agreed cfg processed t := by
  obtain ⟨pkt, arrives, h⟩ := Option.bind_eq_some_iff.mp h
  obtain ⟨⟨r, ack⟩, receive, h⟩ := Option.bind_eq_some_iff.mp h
  cases h
  have member := List.mem_of_getElem? arrives
  obtain ⟨-, checked, -⟩ := receiveUdp_sound (fun _ => fits.le) N.rcv (N.data pkt member) receive
  obtain ⟨bitmap, fresh⟩ :=
    receiveUdp_fresh mode fits N.rcv.checked E.rcv (N.data pkt member) receive
  have grows : s.rcv.checked ⊆ r.checked ∧ r.checked ⊆ pkt :: s.rcv.checked := by
    rcases checked with same | more
    · rw [same]
      exact ⟨List.Subset.refl _, List.subset_cons_self _ _⟩
    · rw [more]
      exact ⟨List.subset_append_left _ _, by simp⟩
  have seen : ∀ a ∈ processed ++ s.acks, Seen s.rcv.checked a.seq := by
    intro a known
    rcases List.mem_append.mp known with old | waits
    · exact E.seen a old
    · exact (N.acks a waits).seen mode
  refine ⟨E.bits, fun x known => ?_, bitmap, fun a old => ?_, fun a known => ?_, ?_⟩
  · apply E.sent x
    rcases known with flies | known
    · exact .inl (List.mem_of_mem_eraseIdx flies)
    · rcases List.mem_cons.mp (grows.2 known) with rfl | old
      · exact .inl member
      · exact .inr old
  · obtain ⟨old, known, same⟩ := E.seen a old
    exact ⟨old, grows.1 known, same⟩
  · rcases List.mem_append.mp known with old | new
    · exact E.skips a old
    · exact (fresh a (by simpa using new)).skips
  · dsimp only
    rw [← List.append_assoc, List.pairwise_append]
    refine ⟨E.order, ?_, fun a before b new sack => ?_⟩
    · cases ack with
      | none => exact List.Pairwise.nil
      | some a => exact List.pairwise_singleton _ _
    · obtain ⟨old, known, same⟩ := seen a before
      rw [← same]
      exact (fresh b (by simpa using new)).beyond sack old known

theorem agreed_processed {ack : AckPacket} {rest : List AckPacket} {u : Sender}
    (mode : cfg.mode = .irn)
    (fits : cfg.lastEnd < 2 ^ 32) (S : Synced cfg s.snd) (N : Network cfg s)
    (E : Agreed cfg processed s) (front : s.acks = ack :: rest) (takes : s.snd.Takes cfg)
    (received : s.snd.receive cfg ack = some u) :
    Agreed cfg (processed ++ [ack]) { s with snd := u, acks := rest } := by
  have here : ack ∈ s.acks := front ▸ List.mem_cons_self
  have small := S.small fits
  obtain ⟨pkt, arrived, same⟩ := (N.acks ack here).seen mode
  have dvd : cfg.mtu ∣ ack.seq := same ▸ (N.rcv.checked pkt arrived).aligned mode
  have sent : ack.seq < s.snd.msg.sndNxt := same ▸ (S.timers _ (E.sent pkt (.inr arrived))).2
  have taken := receive_takes mode (N.kinds mode ack here) received
  have before : ack.ackType = .sack → ∀ q, Named processed q → q < ack.nackSeq := by
    rintro sack q ⟨old, known, rfl⟩
    exact (List.pairwise_append.mp E.order).2.2 old known ack here sack
  have bits : Bits cfg u.msg.irn fun q => Named processed q ∨ q = ack.seq := by
    cases type : ack.ackType with
    | nack => exact absurd type (N.kinds mode ack here)
    | ack =>
      rw [taken.acked takes type]
      exact bits_ack S.slots small E.bits dvd sent
    | sack =>
      obtain ⟨rtx, -, irn⟩ := taken.sacked takes type
      rw [irn]
      exact bits_congr (bits_sack S.slots small E.bits dvd sent ((N.acks ack here).nackSeq mode)
        (E.skips ack here type) (before type)) rfl rfl
  refine ⟨bits_named bits fun q _ => named_append.symm, fun x known => ?_, E.rcv, fun a known => ?_,
    fun a known => ?_, ?_⟩
  · dsimp only
    rw [taken.timers]
    exact E.sent x known
  · rcases List.mem_append.mp known with old | new
    · exact E.seen a old
    · rw [List.mem_singleton.mp new]
      exact ⟨pkt, arrived, same⟩
  · exact E.skips a (front ▸ List.mem_cons_of_mem _ known)
  · have order := E.order
    rw [front] at order
    rw [List.append_assoc]
    exact order

theorem agreed_step {ev : Event} (mode : cfg.mode = .irn) (fits : cfg.lastEnd < 2 ^ 32)
    (S : Synced cfg s.snd) (N : Network cfg s) (E : Agreed cfg processed s) (ordered : ev.InOrder)
    (h : s.step cfg ev = some t) :
    Agreed cfg (processed ++ (ev.processed cfg s).toList) t := by
  have nothing : ev.processed cfg s = none → processed ++ (ev.processed cfg s).toList =
      processed := by
    intro none
    rw [none]
    exact List.append_nil processed
  cases ev with
  | timeout => exact ordered.elim
  | duplicateAck k => exact ordered.elim
  | send allowed =>
    rw [nothing rfl]
    exact agreed_send mode E h
  | irnTimer seq =>
    rw [nothing rfl]
    have handled := @irnTimerHandler_bits cfg s.snd _ seq E.bits
    simp only [Session.step] at h
    split at h
    · cases h
      have timers : s.snd.timers ⊆ (s.snd.irnTimerHandler cfg seq).timers := by
        rw [handled.2]
        exact List.Subset.refl _
      exact agreed_carried E handled.1 timers rfl (List.Subset.refl _) (List.Sublist.refl _)
    · cases h
  | dataArrives k expired =>
    rw [nothing rfl]
    exact agreed_arrives mode fits N E h
  | loseData k =>
    rw [nothing rfl]
    cases h
    have fewer : s.data.eraseIdx k ⊆ s.data := fun _ => List.mem_of_mem_eraseIdx
    exact agreed_carried E E.bits (List.Subset.refl _) rfl fewer (List.Sublist.refl _)
  | duplicateData k =>
    rw [nothing rfl]
    obtain ⟨pkt, here, rfl⟩ := Option.map_eq_some_iff.mp h
    exact agreed_carried E E.bits (List.Subset.refl _) rfl (append_copy here) (List.Sublist.refl _)
  | loseAck k =>
    rw [nothing rfl]
    cases h
    exact agreed_carried E E.bits (List.Subset.refl _) rfl (List.Subset.refl _)
      (List.eraseIdx_sublist _ _)
  | ackArrives k =>
    obtain rfl : k = 0 := ordered
    obtain ⟨ack, here, h⟩ := Option.bind_eq_some_iff.mp h
    obtain ⟨snd, received, h⟩ := Option.bind_eq_some_iff.mp h
    cases h
    obtain ⟨rest, front⟩ : ∃ rest, s.acks = ack :: rest := by
      cases acks : s.acks with
      | nil => simp [acks] at here
      | cons a rest =>
        rw [acks] at here
        exact ⟨rest, by rw [Option.some.inj here]⟩
    unfold Event.processed
    dsimp only
    by_cases takes : s.snd.Takes cfg
    · rw [if_pos takes, here]
      have after := agreed_processed mode fits S N E front takes received
      rw [front]
      exact after
    · rw [if_neg takes]
      have taken := receive_takes mode (N.kinds mode ack (front ▸ List.mem_cons_self)) received
      have bits : Bits cfg snd.msg.irn (Named processed) := by
        rw [taken.ignored takes]
        exact E.bits
      have timers : s.snd.timers ⊆ snd.timers := by
        rw [taken.timers]
        exact List.Subset.refl _
      rw [Option.toList_none, List.append_nil]
      exact agreed_carried E bits timers rfl (List.Subset.refl _) (List.eraseIdx_sublist _ _)

theorem agreed_run (mode : cfg.mode = .irn) (fits : cfg.lastEnd < 2 ^ 32)
    (run : Acknowledged cfg processed s) :
    Synced cfg s.snd ∧ Network cfg s ∧ Agreed cfg processed s := by
  induction run with
  | initial => exact ⟨synced_initial cfg, network_initial cfg, agreed_initial cfg⟩
  | @step processed s t ev _ ordered h before =>
    obtain ⟨S, N, E⟩ := before
    have synchronous : ev.Synchronous s := by
      cases ev with
      | timeout => exact ordered.elim
      | _ => trivial
    refine ⟨synced_step mode fits S N synchronous (step_move h),
      network_step (fun _ => fits.le) N h ?_, agreed_step mode fits S N E ordered h⟩
    exact fun _ _ _ ready sent => sends_sound (synced_ready mode fits S ready sent).1

/-! ### What the bitmap is for -/

/-- The bitmap of the sender is the one of the acknowledgements it has processed. The next one to
arrive is for a packet of the window, or one before it; a SACK is for packets that are still in the
window, takes back no acknowledgement, and queues all that it reports. Nothing that was acknowledged
is sent. -/
structure Selective (cfg : Config) (processed : List AckPacket) (s : Session) : Prop where
  acked : ∀ q, cfg.mtu ∣ q →
    (s.snd.msg.irn.getIrnState cfg.mtu q = .ack ↔ ∃ ack ∈ processed, ack.seq = q)
  inside : ∀ ack ∈ s.acks, s.snd.msg.irn.baseSeq ≤ ack.seq →
    s.snd.msg.irn.index cfg.mtu ack.seq < s.snd.msg.irn.states.length
  reports : ∀ ack ∈ s.acks, ack.ackType = .sack → s.snd.msg.irn.baseSeq ≤ ack.nackSeq ∧
    ack.nackSeq < ack.seq
  queued : ∀ ack ∈ s.acks.head?, ack.ackType = .sack → s.snd.Takes cfg →
    ∃ t, s.step cfg (.ackArrives 0) = some t ∧ t.snd.finished = false ∧ ∀ q, cfg.mtu ∣ q →
      ack.nackSeq ≤ q → q < ack.seq →
      q ∈ t.snd.msg.irn.rtxSeqQueues ∧ t.snd.msg.irn.isMissing cfg.mtu q = true
  unacked : ∀ u t pkt, s.snd.shouldSndData cfg = (u, true) → u.getNxtPacket cfg = some (t, pkt) →
    ∀ ack ∈ processed, ack.seq ≠ pkt.seq

theorem loop32_visits {p hi fuel i : ℕ} {l : List ℕ} (h : loop32 p hi fuel i = some l)
    (small : hi < 2 ^ 32)
    (lo_dvd : p ∣ i) (hi_dvd : p ∣ hi) {q : ℕ} (dvd : p ∣ q) (ge : i ≤ q) (lt : q < hi) :
    q ∈ l := by
  have next : ∀ {a b : ℕ}, p ∣ a → p ∣ b → a < b → a + p ≤ b := by
    rintro _ _ ⟨a, rfl⟩ ⟨b, rfl⟩ less
    have := Nat.mul_le_mul_left p (Nat.succ_le_of_lt (Nat.lt_of_mul_lt_mul_left less))
    rwa [Nat.mul_succ] at this
  induction fuel generalizing i l with
  | zero => cases h
  | succ fuel ih =>
    unfold loop32 at h
    rw [if_pos (ge.trans_lt lt)] at h
    obtain ⟨rest, tail, rfl⟩ := Option.map_eq_some_iff.mp h
    have exact_add : add32 i p = i + p :=
      Nat.mod_eq_of_lt ((next lo_dvd hi_dvd (ge.trans_lt lt)).trans_lt small)
    rw [exact_add] at tail
    rcases Nat.eq_or_lt_of_le ge with rfl | after
    · exact List.mem_cons_self
    · exact List.mem_cons_of_mem _
        (ih tail (Nat.dvd_add lo_dvd (Nat.dvd_refl p)) (next lo_dvd dvd after))

theorem loop32_ends {lo hi : ℕ} (lo_dvd : cfg.mtu ∣ lo) (hi_dvd : cfg.mtu ∣ hi) (le : lo ≤ hi)
    (small : hi < 2 ^ 32) : ∃ l, loop32 cfg.mtu hi (2 ^ 32 + 1) lo = some l := by
  obtain ⟨k, rfl⟩ := lo_dvd
  obtain ⟨m, rfl⟩ := hi_dvd
  obtain ⟨n, rfl⟩ := Nat.exists_eq_add_of_le (Nat.le_of_mul_le_mul_left le cfg.mtu_pos)
  have few : n < 2 ^ 32 + 1 := by
    have := Nat.le_mul_of_pos_left (k + n) cfg.mtu_pos
    omega
  rw [Nat.mul_comm] at small
  obtain ⟨l, loop, -⟩ := loop32_steps cfg.mtu_pos small few
  rw [Nat.mul_comm _ (k + n), Nat.mul_comm _ k]
  exact ⟨l, loop⟩

theorem sack_reports {ack : AckPacket} (mode : cfg.mode = .irn) (N : Network cfg s)
    (E : Agreed cfg processed s) (here : ack ∈ s.acks) (sack : ack.ackType = .sack) :
    s.snd.msg.irn.baseSeq ≤ ack.nackSeq ∧ ack.nackSeq < ack.seq := by
  refine ⟨Nat.le_of_not_lt fun lt => ?_, E.skips ack here sack⟩
  have acked := (E.bits.acked ack.nackSeq ((N.acks ack here).nackSeq mode)).mp (.inl lt)
  obtain ⟨old, known, same⟩ := acked
  have before := (List.pairwise_append.mp E.order).2.2 old known ack here sack
  omega

theorem moveToSending_active {s : Sender} (active : s.finished = false) :
    ∃ t, s.moveToSending = some t := by
  unfold Sender.moveToSending
  split
  · exact ⟨_, rfl⟩
  · rw [active, if_neg Bool.false_ne_true]
    exact ⟨_, rfl⟩

theorem receiveSack_returns {s : Sender} {ack : AckPacket} {rtx : List ℕ} (mode : cfg.mode = .irn)
    (sack : ack.ackType = .sack) (takes : s.Takes cfg)
    (loop : loop32 cfg.mtu ack.seq (2 ^ 32 + 1) ack.nackSeq = some rtx) :
    ∃ t, s.receive cfg ack = some t ∧ (t.msg.irn.baseSeq < cfg.size → t.finished = false) := by
  obtain ⟨active, plain, interval⟩ := takes
  have other : ¬cfg.mode ≠ .irn := not_not.mpr mode
  have running : ¬s.finished = true := Bool.not_eq_true _ ▸ active
  unfold Sender.receive
  rw [sack]
  dsimp only
  unfold Sender.receiveSack
  rw [if_neg other, if_neg running, plain, if_neg Bool.false_ne_true, if_neg interval]
  simp only [loop, Option.bind_eq_bind, Option.bind_some]
  obtain ⟨v, moved⟩ := @moveToSending_active { s with
    msg := { s.msg with irn := { s.msg.irn.sackIrnState cfg.mtu ack.seq ack.nackSeq with
      rtxSeqQueues := (s.msg.irn.sackIrnState cfg.mtu ack.seq ack.nackSeq).rtxSeqQueues ++
        rtx } } } active
  obtain ⟨-, msg, finished⟩ := moveToSending_keeps moved
  dsimp only at moved
  rw [moved, Option.bind_some]
  refine ⟨_, rfl, fun before => ?_⟩
  split
  · rename_i ends
    rw [if_pos ends] at before
    change v.msg.irn.baseSeq < cfg.size at before
    rw [msg] at before
    exact absurd ends (Nat.not_le.mpr before)
  · exact finished.trans active

theorem sack_step {ack : AckPacket} {rest : List AckPacket} (mode : cfg.mode = .irn)
    (fits : cfg.lastEnd < 2 ^ 32)
    (S : Synced cfg s.snd) (N : Network cfg s) (E : Agreed cfg processed s)
    (front : s.acks = ack :: rest) (sack : ack.ackType = .sack) (takes : s.snd.Takes cfg) :
    ∃ t, s.step cfg (.ackArrives 0) = some t ∧ t.snd.finished = false ∧ ∀ q, cfg.mtu ∣ q →
    ack.nackSeq ≤ q → q < ack.seq →
      q ∈ t.snd.msg.irn.rtxSeqQueues ∧ t.snd.msg.irn.isMissing cfg.mtu q = true := by
  have here : ack ∈ s.acks := front ▸ List.mem_cons_self
  have nack_dvd := (N.acks ack here).nackSeq mode
  obtain ⟨pkt, arrived, same⟩ := (N.acks ack here).seen mode
  have sound := N.rcv.checked pkt arrived
  have aligned : Aligned cfg ack.seq := same ▸ ⟨sound.aligned mode, sound.seq_lt⟩
  have sent : ack.seq < s.snd.msg.sndNxt := same ▸ (S.timers _ (E.sent pkt (.inr arrived))).2
  have small : ack.seq < 2 ^ 32 := aligned.2.trans cfg.size_lt
  obtain ⟨-, skips⟩ := sack_reports mode N E here sack
  obtain ⟨rtx, loop⟩ := loop32_ends nack_dvd aligned.1 skips.le small
  obtain ⟨u, received, unfinished⟩ := receiveSack_returns mode sack takes loop
  have step : s.step cfg (.ackArrives 0) = some { s with snd := u, acks := rest } := by
    show s.ackArrives cfg 0 = _
    unfold Session.ackArrives
    rw [front]
    simp only [List.getElem?_cons_zero, received, Option.bind_eq_bind, Option.bind_some,
      List.eraseIdx_zero, List.tail_cons]
  have after := agreed_processed mode fits S N E front takes received
  have synced := synced_acked mode fits S (N.kinds mode ack here) aligned nack_dvd received
  have taken := receive_takes mode (N.kinds mode ack here) received
  obtain ⟨rtx', loop', irn⟩ := taken.sacked takes sack
  obtain rfl : rtx = rtx' := Option.some.inj (loop.symm.trans loop')
  have missing : ∀ q, cfg.mtu ∣ q → ack.nackSeq ≤ q → q < ack.seq → ¬u.msg.irn.Acked cfg.mtu q := by
    intro q dvd ge lt acked
    obtain ⟨old, known, rfl⟩ := (after.bits.acked q dvd).mp acked
    rcases List.mem_append.mp known with known | new
    · have before := (List.pairwise_append.mp E.order).2.2 old known ack here sack
      omega
    · rw [List.mem_singleton.mp new] at lt
      exact Nat.lt_irrefl _ lt
  have base : u.msg.irn.baseSeq ≤ ack.nackSeq :=
    Nat.le_of_not_lt fun lt => missing ack.nackSeq nack_dvd (le_refl _) skips (.inl lt)
  refine ⟨_, step, unfinished (base.trans_lt (skips.trans aligned.2)), fun q dvd ge lt => ⟨?_, ?_⟩⟩
  · dsimp only
    rw [irn]
    exact List.mem_append_right _ (loop32_visits loop small nack_dvd aligned.1 dvd ge lt)
  · have armed : ack.seq ∈ u.timers := same ▸ after.sent pkt (.inr arrived)
    have below := lt.trans (synced.timers _ armed).2
    exact (missing_iff_not_acked synced.slots (synced.small fits) after.bits.known dvd below).mpr
      (missing q dvd ge lt)

theorem send_unacked {u v : Sender} {pkt : DataPacket} (mode : cfg.mode = .irn)
    (fits : cfg.lastEnd < 2 ^ 32) (S : Synced cfg s.snd) (E : Agreed cfg processed s)
    (ready : s.snd.shouldSndData cfg = (u, true))
    (sent : u.getNxtPacket cfg = some (v, pkt)) {ack : AckPacket} (known : ack ∈ processed) :
    ack.seq ≠ pkt.seq := by
  intro same
  have should := synced_should mode S
  have checked := @shouldSndData_bits cfg s.snd _ E.bits
  rw [ready] at should checked
  obtain ⟨sends, timers⟩ := synced_ready mode fits S ready sent
  obtain ⟨-, ⟨missing, -⟩ | ⟨new, -⟩⟩ := getNxtPacket_irn mode sent
  · have acked := (checked.1.acked pkt.seq sends.aligned.1).mpr ⟨ack, known, same⟩
    have before := missing_sent should.1 sends.aligned missing
    exact (missing_iff_not_acked should.1.slots
      (should.1.small fits) checked.1.known sends.aligned.1 before).mp missing acked
  · obtain ⟨x, arrived, named⟩ := E.seen ack known
    apply sends.fresh new
    rw [timers, ← same, ← named]
    exact E.sent x (.inr arrived)

/-- Selective acknowledgement in IRN, in runs without recoveries whose acknowledgements come in
order. -/
theorem irn_selective (mode : cfg.mode = .irn) (fits : cfg.lastEnd < 2 ^ 32)
    (run : Acknowledged cfg processed s) : Selective cfg processed s := by
  obtain ⟨S, N, E⟩ := agreed_run mode fits run
  have small := S.small fits
  refine ⟨fun q dvd => ?_, fun ack here ge => ?_, fun ack here sack =>
    sack_reports mode N E here sack,
    fun ack here sack takes => ?_, fun u v pkt ready sent ack known =>
      send_unacked mode fits S E ready sent known⟩
  · rw [getIrnState_acked S.slots small dvd]
    exact E.bits.acked q dvd
  · obtain ⟨pkt, arrived, same⟩ := (N.acks ack here).seen mode
    have dvd : cfg.mtu ∣ ack.seq := same ▸ (N.rcv.checked pkt arrived).aligned mode
    have sent : ack.seq < s.snd.msg.sndNxt := same ▸ (S.timers _ (E.sent pkt (.inr arrived))).2
    have position := index_seq S.slots.aligned dvd ge
    have below := (aligned_lt_roundUp dvd).mpr sent
    have ends := S.slots.frontier
    unfold SndIrn.frontier at ends
    exact Nat.lt_of_mul_lt_mul_right (a := cfg.mtu) (by omega)
  · cases acks : s.acks with
    | nil => simp [acks] at here
    | cons first rest =>
      rw [acks] at here
      obtain rfl : first = ack := Option.some.inj here
      exact sack_step mode fits S N E acks sack takes

/-- The second and the fifth packet arrive, and the first SACK is processed while the second one is
in flight. -/
def skippingRun : List Event :=
  [.send true, .send true, .send true, .send true, .send true, .dataArrives 1 false,
    .dataArrives 3 false, .ackArrives 0]

theorem irn_selective_skipping : ∃ s : Session, s.snd.msg.irn.rtxSeqQueues = [0] ∧
    s.acks = [⟨.sack, 40, 20, false⟩] ∧
    Selective (Session.smallConfig .irn 45) [⟨.sack, 10, 0, false⟩] s := by
  have ends : ∃ s, Session.runAcknowledged (Session.smallConfig .irn 45) ([], {}) skippingRun =
      some ([⟨.sack, 10, 0, false⟩], s) ∧ s.snd.msg.irn.rtxSeqQueues = [0] ∧
        s.acks = [⟨.sack, 40, 20, false⟩] := by
    refine ⟨(Session.runAcknowledged (Session.smallConfig .irn 45) ([], {}) skippingRun |>.getD
      ([], {})).2, ?_, ?_⟩ <;> decide +kernel
  obtain ⟨s, ends, queued, flies⟩ := ends
  exact ⟨s, queued, flies, irn_selective rfl (by decide)
    (acknowledged_run (x := ([], {})) .initial ends)⟩

end Rdma

end Pyrrha

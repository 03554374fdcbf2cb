import Pyrrha.Rdma.Coverage

/-!
The IRN window of the sender. Each position stands for the packet at a multiple of the payload after
the base, and an acknowledged position for one that has arrived, until all have.
-/

namespace Pyrrha
open Lib

namespace Rdma

variable {cfg : Config}

namespace SndIrn

/-- Where the next new packet would start, had sequence numbers no bound. -/
def frontier (p : ℕ) (irn : SndIrn) : ℕ := irn.baseSeq + irn.states.length * p

end SndIrn

/-- What the window of the sender says about the packets that have arrived. -/
structure Window (cfg : Config) (irn : SndIrn) (checked : List DataPacket) : Prop where
  aligned : cfg.mtu ∣ irn.baseSeq
  base_lt : irn.baseSeq < 2 ^ 32
  done : ∀ q, cfg.mtu ∣ q → q < irn.baseSeq → Seen checked q
  acked : ∀ i, irn.states[i]? = some .ack → Seen checked (irn.baseSeq + i * cfg.mtu)
  length : irn.payloads.length = irn.states.length
  payloads : ∀ i v, irn.payloads[i]? = some v →
    v ≤ cfg.mtu ∧ (v = cfg.mtu ∨ cfg.size ≤ irn.baseSeq + i * cfg.mtu + v)
  rtx : ∀ q ∈ irn.rtxSeqQueues, Aligned cfg q

theorem isMissing_index {irn : SndIrn} {seq : ℕ} (missing : irn.isMissing cfg.mtu seq = true) :
    irn.baseSeq ≤ seq ∧ irn.index cfg.mtu seq < irn.states.length := by
  unfold SndIrn.isMissing SndIrn.getIrnState at missing
  split_ifs at missing with beyond ge
  exact ⟨ge, window_index (not_le.mp beyond) ge⟩

theorem index_seq {irn : SndIrn} {seq : ℕ} (aligned : cfg.mtu ∣ irn.baseSeq) (dvd : cfg.mtu ∣ seq)
    (ge : irn.baseSeq ≤ seq) : irn.baseSeq + irn.index cfg.mtu seq * cfg.mtu = seq := by
  have exact_div : irn.index cfg.mtu seq * cfg.mtu = seq - irn.baseSeq :=
    Nat.div_mul_cancel (Nat.dvd_sub dvd aligned)
  omega

/-- Everything has arrived, and the sequence numbers up to the end of a full last packet do not fit
into 32 bits. -/
def Overrun (cfg : Config) (checked : List DataPacket) : Prop :=
  2 ^ 32 ≤ cfg.lastEnd ∧ AllReceived cfg checked

/-- Acknowledged positions leave the window at its base, until the base wraps. -/
theorem window_drop {states : List SndState} {payloads : List ℕ} {base : ℕ} {rtx : List ℕ}
    {checked : List DataPacket} (sound : ∀ pkt ∈ checked, Sound cfg pkt)
    (W : Window cfg ⟨states, payloads, base, rtx⟩ checked) :
    Overrun cfg checked ∨
      Window cfg (SndIrn.moveWindow cfg.mtu ⟨states, payloads, base, rtx⟩) checked ∧
      (SndIrn.moveWindow cfg.mtu ⟨states, payloads, base, rtx⟩).frontier cfg.mtu =
        base + states.length * cfg.mtu := by
  induction states generalizing payloads base with
  | nil => exact .inr ⟨W, rfl⟩
  | cons state rest ih =>
    cases state with
    | ack =>
      have front : Seen checked base := by simpa using W.acked 0 rfl
      have done : ∀ q, cfg.mtu ∣ q → q < base + cfg.mtu → Seen checked q := by
        intro q dvd lt
        rcases Nat.lt_or_ge q base with below | ge
        · exact W.done q dvd below
        · have : q = base := by
            have := Nat.eq_zero_of_dvd_of_lt (Nat.dvd_sub dvd W.aligned) (by dsimp only; omega)
            dsimp only at this
            omega
          rw [this]
          exact front
      rcases Nat.lt_or_ge (base + cfg.mtu) (2 ^ 32) with small | wraps
      · have exact_add : add32 base cfg.mtu = base + cfg.mtu := Nat.mod_eq_of_lt small
        have tail : Window cfg ⟨rest, payloads.tail, base + cfg.mtu, rtx⟩ checked := by
          refine ⟨Nat.dvd_add W.aligned (Nat.dvd_refl _), small, done, fun i at_i => ?_, ?_,
            fun i v at_i => ?_, W.rtx⟩
          · have := W.acked (i + 1) at_i
            rwa [Nat.succ_mul, Nat.add_comm (i * _), ← Nat.add_assoc] at this
          · have := W.length
            simp only [List.length_cons, List.length_tail] at this ⊢
            omega
          · have := W.payloads (i + 1) v (by rw [← List.getElem?_tail]; exact at_i)
            rwa [Nat.succ_mul, Nat.add_comm (i * _), ← Nat.add_assoc] at this
        have moved := ih tail
        have same : SndIrn.moveWindow cfg.mtu ⟨.ack :: rest, payloads, base, rtx⟩ =
            SndIrn.moveWindow cfg.mtu ⟨rest, payloads.tail, base + cfg.mtu, rtx⟩ := by
          simp only [SndIrn.moveWindow, SndIrn.dropAcked, exact_add]
        rw [same, List.length_cons, Nat.succ_mul]
        refine moved.imp_right fun h => ⟨h.1, h.2.trans (by omega)⟩
      · left
        obtain ⟨pkt, member, seq⟩ := front
        have first : Aligned cfg base := ⟨W.aligned, seq ▸ (sound pkt member).seq_lt⟩
        refine ⟨wraps.trans (aligned_lastEnd first), allReceived_of_seen sound fun q aligned =>
          done q aligned.1 ?_⟩
        have := aligned.2
        have := cfg.size_lt
        omega
    | unack => exact .inr ⟨W, rfl⟩
    | nack => exact .inr ⟨W, rfl⟩
    | undef => exact .inr ⟨W, rfl⟩

theorem window_set {irn : SndIrn} {checked : List DataPacket} (W : Window cfg irn checked) (i : ℕ)
    {state : SndState} (seen : state = .ack → Seen checked (irn.baseSeq + i * cfg.mtu)) :
    Window cfg { irn with states := irn.states.set i state } checked := by
  refine ⟨W.aligned, W.base_lt, W.done, fun j at_j => ?_, ?_, W.payloads, W.rtx⟩
  · rw [List.getElem?_set] at at_j
    split at at_j
    · rename_i eq
      split at at_j
      · rw [← eq]
        exact seen (Option.some.inj at_j)
      · cases at_j
    · exact W.acked j at_j
  · rw [List.length_set]
    exact W.length

theorem window_markLost {irn : SndIrn} {checked : List DataPacket} (W : Window cfg irn checked)
    (first bound : ℕ) : Window cfg (irn.markLost first bound) checked := by
  refine ⟨W.aligned, W.base_lt, W.done, fun j at_j => ?_, ?_, W.payloads, W.rtx⟩
  · simp only [SndIrn.markLost, List.getElem?_mapIdx, Option.map_eq_some_iff] at at_j
    obtain ⟨state, at_state, eq⟩ := at_j
    split at eq
    · cases eq
    · exact W.acked j (eq ▸ at_state)
  · simpa only [SndIrn.markLost, List.length_mapIdx] using W.length

theorem window_send {irn : SndIrn} {checked : List DataPacket} (W : Window cfg irn checked)
    {payload : ℕ} (le : payload ≤ cfg.mtu) (reach : payload = cfg.mtu ∨
      cfg.size ≤ irn.frontier cfg.mtu + payload) :
    Window cfg (irn.sendNewPacket payload) checked := by
  refine ⟨W.aligned, W.base_lt, W.done, fun j at_j => ?_, ?_, fun j v at_j => ?_, W.rtx⟩
  · rcases Nat.lt_or_ge j irn.states.length with lt | ge
    · rw [SndIrn.sendNewPacket, List.getElem?_append_left lt] at at_j
      exact W.acked j at_j
    · rw [SndIrn.sendNewPacket, List.getElem?_append_right ge] at at_j
      cases List.mem_singleton.mp (List.mem_of_getElem? at_j)
  · simp [SndIrn.sendNewPacket, W.length]
  · rcases Nat.lt_or_ge j irn.payloads.length with lt | ge
    · rw [SndIrn.sendNewPacket, List.getElem?_append_left lt] at at_j
      exact W.payloads j v at_j
    · rw [SndIrn.sendNewPacket, List.getElem?_append_right ge] at at_j
      have eq := List.mem_singleton.mp (List.mem_of_getElem? at_j)
      have last : j = irn.states.length := by
        have := (List.getElem?_eq_some_iff.mp at_j).1
        have := W.length
        simp only [List.length_singleton] at *
        omega
      rw [eq, last]
      exact ⟨le, reach⟩

theorem frontier_send (p : ℕ) (irn : SndIrn) (payload : ℕ) :
    (irn.sendNewPacket payload).frontier p = irn.frontier p + p := by
  simp only [SndIrn.frontier, SndIrn.sendNewPacket, List.length_append, List.length_singleton,
    Nat.succ_mul, Nat.add_assoc]

theorem frontier_set (p : ℕ) (irn : SndIrn) (seq : ℕ) (state : SndState) :
    (irn.setSeqState p seq state).frontier p = irn.frontier p := by
  simp only [SndIrn.frontier, SndIrn.setSeqState, List.length_set]

theorem window_rtx {irn : SndIrn} {checked : List DataPacket} (W : Window cfg irn checked)
    {rtx : List ℕ}
    (aligned : ∀ q ∈ rtx, Aligned cfg q) : Window cfg { irn with rtxSeqQueues := rtx } checked :=
  ⟨W.aligned, W.base_lt, W.done, W.acked, W.length, W.payloads, aligned⟩

theorem window_append {irn : SndIrn} {checked : List DataPacket} (W : Window cfg irn checked)
    (pkt : DataPacket) : Window cfg irn (checked ++ [pkt]) :=
  ⟨W.aligned, W.base_lt, fun q dvd lt => seen_append (W.done q dvd lt) pkt,
    fun i at_i => seen_append (W.acked i at_i) pkt, W.length, W.payloads, W.rtx⟩

theorem window_ack {irn : SndIrn} {checked : List DataPacket} {seq : ℕ} (W : Window cfg irn checked)
    (missing : irn.isMissing cfg.mtu seq = true) (dvd : cfg.mtu ∣ seq) (seen : Seen checked seq) :
    Window cfg (irn.setSeqState cfg.mtu seq .ack) checked := by
  refine window_set W _ fun _ => ?_
  rw [index_seq W.aligned dvd (isMissing_index missing).1]
  exact seen

theorem ackIrnState_window {irn : SndIrn} {checked : List DataPacket} {seq : ℕ}
    (sound : ∀ pkt ∈ checked, Sound cfg pkt) (W : Window cfg irn checked) (dvd : cfg.mtu ∣ seq)
    (seen : Seen checked seq) : Overrun cfg checked ∨
      Window cfg (irn.ackIrnState cfg.mtu seq) checked ∧
      (irn.ackIrnState cfg.mtu seq).frontier cfg.mtu = irn.frontier cfg.mtu := by
  unfold SndIrn.ackIrnState
  split
  · rename_i missing
    have moved := window_drop sound (window_ack W missing dvd seen)
    rwa [List.length_set] at moved
  · exact window_drop sound W

theorem sackIrnState_window {irn : SndIrn} {checked : List DataPacket} {seq : ℕ} (ack : ℕ)
    (sound : ∀ pkt ∈ checked, Sound cfg pkt) (W : Window cfg irn checked) (dvd : cfg.mtu ∣ seq)
    (seen : Seen checked seq) : Overrun cfg checked ∨
      Window cfg (irn.sackIrnState cfg.mtu seq ack) checked ∧
      (irn.sackIrnState cfg.mtu seq ack).frontier cfg.mtu = irn.frontier cfg.mtu := by
  unfold SndIrn.sackIrnState
  dsimp only
  split
  · rename_i missing
    have moved := window_drop sound (window_markLost (window_ack W missing dvd seen)
      (sub32 ack irn.baseSeq / cfg.mtu) (irn.index cfg.mtu seq))
    rwa [List.length_mapIdx, SndIrn.setSeqState, List.length_set] at moved
  · exact window_drop sound W

end Rdma

end Pyrrha

import Mathlib.Data.Finset.Max
import Pyrrha.Lib.Marks
import Pyrrha.Rdma.Coverage

/-!
The bitmap of an IRN receiver. Its window has a mark for every packet from the first one that is
missing to the last one that has arrived, in whatever order they come, until a packet ends where
sequence numbers wrap.
-/

namespace Pyrrha
open Lib

namespace Rdma

variable {p : ℕ} {received : List ℕ} {irn : RxIrn}

def RxIrn.isReceived (p : ℕ) (irn : RxIrn) (seq : ℕ) : Bool := irn.getIrnState p seq = .ack

/-- A call that tells the receiver of a packet. -/
inductive IrnCall where
  | updateIrnState (seq : ℕ)
  | receiverCheckSeq (seq : ℕ)

namespace IrnCall

def seq : IrnCall → ℕ
  | updateIrnState seq => seq
  | receiverCheckSeq seq => seq

/-- The call, with what `ReceiverCheckSeq` returns and the `NackSeq` it sets. -/
def apply (p : ℕ) (rx : RxOperation) : IrnCall → Option (RxOperation × Option (SeqCheck × ℕ))
  | updateIrnState seq => do
    let irn ← rx.irn.updateIrnState p seq
    some ({ rx with irn := irn }, none)
  | receiverCheckSeq seq => do
    let (rx, reply) ← rx.checkSeqIrn p seq
    some (rx, some reply)

end IrnCall

/-! ### What is asked of the bitmap -/

/-- The bitmap is the one of the packets that have been received, and no lookup leaves the
window. -/
structure ExactBitmap (p : ℕ) (irn : RxIrn) (received : List ℕ) : Prop where
  aligned : p ∣ irn.baseSeq
  missing : irn.baseSeq ∉ received
  first : ∀ q, p ∣ q → q < irn.baseSeq → q ∈ received
  isReceived : ∀ q, p ∣ q → (irn.isReceived p q = true ↔ q ∈ received)
  next_none : received = [] → irn.getNextSequenceNumber p = 0
  next_highest : ∀ q ∈ received, (∀ r ∈ received, r ≤ q) → irn.getNextSequenceNumber p = q + p
  front : irn.states.head? ≠ some .ack
  lookup : ∀ q, irn.baseSeq ≤ q → q < irn.getNextSequenceNumber p →
    (q - irn.baseSeq) / p < irn.states.length
  slot : ∀ q, irn.getIrnState p q = .nack → (q - irn.baseSeq) / p < irn.states.length

/-- Packets before this one have not been received yet, nor any after it. -/
def SkipsAhead (p : ℕ) (received : List ℕ) (seq : ℕ) : Prop := 0 < seq ∧ ∀ q ∈ received, q + p < seq

/-- The reply is a SACK for what the packet has skipped, if it has skipped any. -/
def Answers (p : ℕ) (irn : RxIrn) (received : List ℕ) (seq : ℕ) (reply : SeqCheck × ℕ) : Prop :=
  (reply.1 = .nack ↔ SkipsAhead p received seq) ∧
    (reply.1 = .nack → reply.2 = irn.getNextSequenceNumber p)

/-- The bitmap is exact whenever a call is made and at the end, and each call returns and is
answered as asked. -/
def RunExact (p : ℕ) : RxOperation → List ℕ → List IrnCall → Prop
  | rx, received, [] => ExactBitmap p rx.irn received
  | rx, received, call :: calls => ExactBitmap p rx.irn received ∧
    ∃ rx' reply, call.apply p rx = some (rx', reply) ∧
    (∀ r ∈ reply, Answers p rx.irn received call.seq r) ∧
      RunExact p rx' (call.seq :: received) calls

/-! ### The marks of the window -/

/-- The window has the marks of the packets from number `b` on, up to the last one that has
arrived. -/
structure Marked (p : ℕ) (states : List RxState) (b : ℕ) (received : List ℕ) : Prop where
  marks : Marks .ack .nack (fun k => k * p ∈ received) b states
  before : ∀ k < b, k * p ∈ received
  within : ∀ k, k * p ∈ received → k < b + states.length
  highest : ∀ k, b + states.length = k + 1 → k * p ∈ received
  fits : (b + states.length) * p < 2 ^ 32

theorem dropAcked_marked {states : List RxState} {b : ℕ} (M : Marked p states b received) :
    ∃ states' b', RxIrn.dropAcked p states (b * p) = (states', b' * p) ∧
    Marked p states' b' received ∧
      b' + states'.length = b + states.length ∧ states'.head? ≠ some .ack := by
  induction states generalizing b with
  | nil => exact ⟨[], b, rfl, M, rfl, by simp⟩
  | cons state rest ih =>
    have length : b + 1 + rest.length = b + (state :: rest).length := by
      rw [List.length_cons]
      omega
    rcases marks_head M.marks with ⟨rfl, arrived⟩ | ⟨rfl, _⟩
    · have slid : Marked p rest (b + 1) received := by
        refine ⟨marks_tail M.marks, fun k lt => ?_, ?_, ?_, ?_⟩
        · rcases Nat.lt_succ_iff_lt_or_eq.mp lt with lt | rfl
          · exact M.before k lt
          · exact arrived
        · rw [length]
          exact M.within
        · rw [length]
          exact M.highest
        · rw [length]
          exact M.fits
      have small : b * p + p < 2 ^ 32 := by
        have := M.fits
        have := Nat.mul_le_mul_right p (show b + 1 ≤ b + (RxState.ack :: rest).length by simp)
        rw [Nat.succ_mul] at this
        omega
      have exact_add : add32 (b * p) p = (b + 1) * p := by
        rw [add32, Nat.mod_eq_of_lt small, Nat.succ_mul]
      obtain ⟨states', b', drop, marked, same, front⟩ := ih slid
      refine ⟨states', b', ?_, marked, same.trans length, front⟩
      rw [RxIrn.dropAcked, exact_add]
      exact drop
    · exact ⟨_, b, rfl, M, rfl, by simp⟩

/-- The bitmap between calls: its first mark is one of a missing packet. -/
structure Bitmap (p : ℕ) (irn : RxIrn) (received : List ℕ) : Prop where
  marked : ∃ b, irn.baseSeq = b * p ∧ Marked p irn.states b received
  front : irn.states.head? ≠ some .ack

theorem bitmap_nil (p : ℕ) : Bitmap p {} [] where
  marked := ⟨0, (Nat.zero_mul p).symm, marks_nil, fun k lt => by omega, fun k h => (by cases h),
    fun k eq => (by simp at eq), by simp⟩
  front := by simp

theorem moveWindow_bitmap {b : ℕ} (base : irn.baseSeq = b * p)
    (M : Marked p irn.states b received) : Bitmap p (irn.moveWindow p) received := by
  obtain ⟨states', b', drop, marked, _, front⟩ := dropAcked_marked M
  have moved : irn.moveWindow p = ⟨states', b' * p⟩ := by
    rw [RxIrn.moveWindow, base, drop]
  rw [moved]
  exact ⟨⟨b', rfl, marked⟩, front⟩

theorem getNextSequenceNumber_marked {b : ℕ} (base : irn.baseSeq = b * p)
    (M : Marked p irn.states b received) :
    irn.getNextSequenceNumber p = (b + irn.states.length) * p := by
  rw [RxIrn.getNextSequenceNumber, base, ← Nat.add_mul, Nat.mod_eq_of_lt M.fits]

theorem getIrnState_marked {b k : ℕ} (pos : 0 < p) (base : irn.baseSeq = b * p)
    (M : Marked p irn.states b received) :
    irn.getIrnState p (k * p) =
      if b + irn.states.length ≤ k then .undef else if k * p ∈ received then .ack else .nack := by
  unfold RxIrn.getIrnState
  rw [getNextSequenceNumber_marked base M, base]
  by_cases beyond : b + irn.states.length ≤ k
  · rw [if_pos (Nat.mul_le_mul_right p beyond), if_pos beyond]
  have inside : ¬ (b + irn.states.length) * p ≤ k * p :=
    fun le => beyond (Nat.le_of_mul_le_mul_right le pos)
  rw [if_neg inside, if_neg beyond]
  by_cases le : b ≤ k
  · have index : (k * p - b * p) / p = k - b := by
      rw [← Nat.sub_mul, Nat.mul_div_cancel _ pos]
    have short : k - b < irn.states.length := by omega
    rw [if_pos (Nat.mul_le_mul_right p le), index, List.getD_eq_getElem _ _ short]
    have mark := M.marks (k - b) _ (List.getElem?_eq_getElem short)
    rw [Nat.add_sub_cancel' le] at mark
    rcases mark with ⟨eq, inside⟩ | ⟨eq, outside⟩
    · rw [eq, if_pos inside]
    · rw [eq, if_neg outside]
  · rw [if_neg (fun h => le (Nat.le_of_mul_le_mul_right h pos)), if_pos (M.before k (by omega))]

/-! ### The calls -/

theorem loop32_steps {k n fuel : ℕ} (pos : 0 < p) (fits : (k + n) * p < 2 ^ 32)
    (enough : n < fuel) : ∃ l, loop32 p ((k + n) * p) fuel (k * p) = some l ∧ l.length = n := by
  induction n generalizing k fuel with
  | zero =>
    obtain ⟨fuel, rfl⟩ := Nat.exists_eq_succ_of_ne_zero (show fuel ≠ 0 by omega)
    exact ⟨[], by simp [loop32], rfl⟩
  | succ n ih =>
    obtain ⟨fuel, rfl⟩ := Nat.exists_eq_succ_of_ne_zero (show fuel ≠ 0 by omega)
    have below : k * p < (k + (n + 1)) * p := Nat.mul_lt_mul_of_pos_right (by omega) pos
    have step : (k + 1) * p ≤ (k + (n + 1)) * p := Nat.mul_le_mul_right p (by omega)
    have exact_add : add32 (k * p) p = (k + 1) * p := by
      rw [Nat.succ_mul] at step
      rw [add32, Nat.mod_eq_of_lt (by omega), Nat.succ_mul]
    have later : k + 1 + n = k + (n + 1) := by omega
    obtain ⟨l, loop, length⟩ := ih (k := k + 1) (by rw [later]; exact fits) (show n < fuel by omega)
    rw [later] at loop
    refine ⟨k * p :: l, ?_, by rw [List.length_cons, length]⟩
    rw [loop32, if_pos below, exact_add, loop, Option.map_some]

/-- A packet beyond the window gets a mark, after those of the packets it has skipped. -/
theorem marked_extend {states : List RxState} {b n : ℕ} (M : Marked p states b received)
    (pos : 0 < p) (fits : (b + states.length + n) * p + p < 2 ^ 32) :
    Marked p (states ++ (List.replicate n RxState.nack ++ [RxState.ack])) b
      ((b + states.length + n) * p :: received) := by
  have other : ∀ k, k * p ∈ (b + states.length + n) * p :: received ↔
      k = b + states.length + n ∨ k * p ∈ received := by
    intro k
    rw [List.mem_cons, Nat.mul_left_inj (by omega)]
  have length : b + (states ++ (List.replicate n RxState.nack ++ [RxState.ack])).length =
      b + states.length + n + 1 := by
    simp only [List.length_append, List.length_replicate, List.length_singleton]
    omega
  refine ⟨?_, fun k lt => List.mem_cons_of_mem _ (M.before k lt), fun k member => ?_,
    fun k eq => ?_, ?_⟩
  · refine marks_append (marks_congr M.marks fun k _ lt => ?_)
      (marks_append (marks_replicate ?_) (marks_singleton ?_))
    · rw [other]
      constructor
      · exact .inr
      · rintro (rfl | old)
        · omega
        · exact old
    · intro k ge lt member
      rcases (other k).mp member with rfl | old
      · omega
      · have := M.within k old
        omega
    · rw [List.length_replicate]
      exact List.mem_cons_self
  · rw [length]
    rcases (other k).mp member with rfl | old
    · omega
    · have := M.within k old
      omega
  · rw [length] at eq
    rw [other]
    omega
  · rw [length, Nat.succ_mul]
    exact fits

theorem marked_set {states : List RxState} {b k : ℕ} (M : Marked p states b received) (pos : 0 < p)
    (ge : b ≤ k) (lt : k < b + states.length) :
    Marked p (states.set (k - b) .ack) b (k * p :: received) := by
  have other : ∀ j, j * p ∈ k * p :: received ↔ j = b + (k - b) ∨ j * p ∈ received := by
    intro j
    rw [List.mem_cons, Nat.mul_left_inj (by omega), Nat.add_sub_cancel' ge]
  refine ⟨marks_congr (marks_set M.marks) fun j _ _ => (other j).symm,
    fun j lt => List.mem_cons_of_mem _ (M.before j lt), fun j member => ?_, fun j eq => ?_, ?_⟩
  · rw [List.length_set]
    rcases (other j).mp member with eq | old
    · omega
    · exact M.within j old
  · rw [List.length_set] at eq
    exact List.mem_cons_of_mem _ (M.highest j eq)
  · rw [List.length_set]
    exact M.fits

theorem marked_again {states : List RxState} {b seq : ℕ} (M : Marked p states b received)
    (old : seq ∈ received) : Marked p states b (seq :: received) := by
  have same : ∀ q, q ∈ seq :: received ↔ q ∈ received := by
    intro q
    rw [List.mem_cons]
    constructor
    · rintro (rfl | member)
      · exact old
      · exact member
    · exact .inr
  exact ⟨marks_congr M.marks fun k _ _ => (same _).symm, fun k lt => (same _).mpr (M.before k lt),
    fun k member => M.within k ((same _).mp member), fun k eq =>
      (same _).mpr (M.highest k eq), M.fits⟩

theorem updateIrnState_bitmap {seq : ℕ} (pos : 0 < p) (B : Bitmap p irn received) (dvd : p ∣ seq)
    (fits : seq + p < 2 ^ 32) : ∃ irn', irn.updateIrnState p seq = some irn' ∧
    Bitmap p irn' (seq :: received) := by
  obtain ⟨⟨b, base, M⟩, _⟩ := B
  obtain ⟨k, rfl⟩ := dvd
  rw [Nat.mul_comm] at fits ⊢
  have state := getIrnState_marked (k := k) pos base M
  unfold RxIrn.updateIrnState
  rw [state]
  by_cases beyond : b + irn.states.length ≤ k
  · obtain ⟨n, rfl⟩ := Nat.exists_eq_add_of_le beyond
    have few : n < 2 ^ 32 + 1 := by
      have := Nat.le_mul_of_pos_right (b + irn.states.length + n) pos
      omega
    obtain ⟨lost, loop, length⟩ :=
      loop32_steps pos (show (b + irn.states.length + n) * p < 2 ^ 32 by omega) few
    rw [if_pos beyond, getNextSequenceNumber_marked base M]
    dsimp only
    rw [loop, Option.bind_eq_bind, Option.bind_some, length]
    exact ⟨_, rfl, moveWindow_bitmap (show RxIrn.baseSeq ⟨_, irn.baseSeq⟩ = b * p from base)
      (marked_extend M pos fits)⟩
  rw [if_neg beyond]
  by_cases old : k * p ∈ received
  · rw [if_pos old]
    exact ⟨_, rfl, moveWindow_bitmap base (marked_again M old)⟩
  · rw [if_neg old]
    have ge : b ≤ k := Nat.le_of_not_lt fun lt => old (M.before k lt)
    have index : (k * p - irn.baseSeq) / p = k - b := by
      rw [base, ← Nat.sub_mul, Nat.mul_div_cancel _ pos]
    dsimp only
    rw [index]
    exact ⟨_, rfl, moveWindow_bitmap (show RxIrn.baseSeq ⟨_, irn.baseSeq⟩ = b * p from base)
      (marked_set M pos ge (by omega))⟩

theorem skipsAhead_iff {seq : ℕ} (B : Bitmap p irn received) (aligned : ∀ q ∈ received, p ∣ q) :
    SkipsAhead p received seq ↔ irn.getNextSequenceNumber p < seq := by
  obtain ⟨⟨b, base, M⟩, _⟩ := B
  rw [getNextSequenceNumber_marked base M]
  constructor
  · rintro ⟨some_before, after⟩
    cases top : b + irn.states.length with
    | zero => simpa using some_before
    | succ k =>
      rw [Nat.succ_mul]
      exact after _ (M.highest k top)
  · intro beyond
    refine ⟨by omega, fun q member => ?_⟩
    obtain ⟨k, rfl⟩ := aligned q member
    rw [Nat.mul_comm] at member ⊢
    have le := Nat.mul_le_mul_right p (Nat.succ_le_of_lt (M.within k member))
    rw [Nat.succ_mul] at le
    omega

theorem bitmap_again {seq : ℕ} (B : Bitmap p irn received) (old : seq ∈ received) :
    Bitmap p irn (seq :: received) := by
  obtain ⟨⟨b, base, M⟩, front⟩ := B
  exact ⟨⟨b, base, marked_again M old⟩, front⟩

theorem isReceived_iff {q : ℕ} (pos : 0 < p) (B : Bitmap p irn received) (dvd : p ∣ q) :
    irn.getIrnState p q = .ack ↔ q ∈ received := by
  obtain ⟨⟨b, base, M⟩, _⟩ := B
  obtain ⟨k, rfl⟩ := dvd
  rw [Nat.mul_comm, getIrnState_marked pos base M]
  split
  · rename_i beyond
    refine ⟨fun h => (by cases h), fun member => ?_⟩
    have := M.within k member
    omega
  · split
    · rename_i member
      exact ⟨fun _ => member, fun _ => rfl⟩
    · rename_i outside
      exact ⟨fun h => (by cases h), fun member => absurd member outside⟩

/-- One call, for a packet that ends below the point where sequence numbers wrap. -/
theorem apply_bitmap {rx : RxOperation} {call : IrnCall} (pos : 0 < p)
    (B : Bitmap p rx.irn received)
    (aligned : ∀ q ∈ received, p ∣ q) (dvd : p ∣ call.seq) (fits : call.seq + p < 2 ^ 32) :
    ∃ rx' reply, call.apply p rx = some (rx', reply) ∧
    (∀ r ∈ reply, Answers p rx.irn received call.seq r) ∧
      Bitmap p rx'.irn (call.seq :: received) := by
  obtain ⟨irn', update, B'⟩ := updateIrnState_bitmap pos B dvd fits
  cases call with
  | updateIrnState seq =>
    refine ⟨{ rx with irn := irn' }, none, ?_, fun r none => (by cases none), B'⟩
    simp only [IrnCall.seq] at update
    simp only [IrnCall.apply, update, Option.bind_eq_bind, Option.bind_some]
  | receiverCheckSeq seq =>
    simp only [IrnCall.seq] at update dvd ⊢
    have skips : SkipsAhead p received seq ↔ _ := skipsAhead_iff B aligned
    simp only [IrnCall.apply, RxOperation.checkSeqIrn]
    split
    · rename_i known
      refine ⟨rx, some (.ack, 0), rfl, fun r eq => ?_,
        bitmap_again B ((isReceived_iff pos B dvd).mp known.2)⟩
      obtain rfl := Option.some.inj eq
      refine ⟨⟨fun h => (by cases h), fun skip => ?_⟩, fun h => (by cases h)⟩
      have := skips.mp skip
      omega
    · refine ⟨{ rx with irn := irn' }, _, by rw [update]; rfl, fun r eq => ?_, B'⟩
      obtain rfl := Option.some.inj eq
      split
      · rename_i within
        refine ⟨⟨fun h => (by cases h), fun skip => ?_⟩, fun h => (by cases h)⟩
        have := skips.mp skip
        omega
      · rename_i beyond
        exact ⟨⟨fun _ => skips.mpr (not_le.mp beyond), fun _ => rfl⟩, fun _ => rfl⟩

theorem bitmap_exact (pos : 0 < p) (B : Bitmap p irn received) (aligned : ∀ q ∈ received, p ∣ q) :
    ExactBitmap p irn received := by
  obtain ⟨b, base, M⟩ := B.marked
  have next := getNextSequenceNumber_marked base M
  refine ⟨?_, fun member => ?_, fun q dvd lt => ?_, fun q dvd => ?_, fun none => ?_,
    fun q member top => ?_, B.front, fun q ge lt => window_index lt ge, fun q nack => ?_⟩
  · rw [base]
    exact Nat.dvd_mul_left _ _
  · rw [base] at member
    have lt := M.within b member
    have front := B.front
    cases eq : irn.states with
    | nil =>
      rw [eq] at lt
      simp at lt
    | cons state rest =>
      have marks := M.marks
      rw [eq] at front marks
      rcases marks_head marks with ⟨rfl, _⟩ | ⟨_, outside⟩
      · exact front rfl
      · exact outside member
  · obtain ⟨k, rfl⟩ := dvd
    rw [base, Nat.mul_comm] at lt
    rw [Nat.mul_comm]
    exact M.before k (Nat.lt_of_mul_lt_mul_right lt)
  · rw [RxIrn.isReceived, decide_eq_true_eq, isReceived_iff pos B dvd]
  · cases top : b + irn.states.length with
    | zero => rw [next, top, Nat.zero_mul]
    | succ k =>
      have := M.highest k top
      rw [none] at this
      cases this
  · obtain ⟨k, rfl⟩ := aligned q member
    rw [Nat.mul_comm] at member top ⊢
    have within := M.within k member
    cases eq : b + irn.states.length with
    | zero => omega
    | succ j =>
      have le := Nat.le_of_mul_le_mul_right (top _ (M.highest j eq)) pos
      have same : j = k := by omega
      rw [next, eq, same, Nat.succ_mul]
  · unfold RxIrn.getIrnState at nack
    split at nack
    · cases nack
    · rename_i ahead
      split at nack
      · rename_i ge
        exact window_index (not_le.mp ahead) ge
      · cases nack

/-! ### Runs -/

theorem runExact_bitmap {rx : RxOperation} {calls : List IrnCall} (pos : 0 < p)
    (B : Bitmap p rx.irn received)
    (aligned : ∀ q ∈ received, p ∣ q) (dvd : ∀ call ∈ calls, p ∣ call.seq)
    (fits : ∀ call ∈ calls, call.seq + p < 2 ^ 32) : RunExact p rx received calls := by
  induction calls generalizing rx received with
  | nil => exact bitmap_exact pos B aligned
  | cons call calls ih =>
    have dvd_head := dvd call List.mem_cons_self
    obtain ⟨rx', reply, apply, answers, B'⟩ :=
      apply_bitmap pos B aligned dvd_head (fits call List.mem_cons_self)
    refine ⟨bitmap_exact pos B aligned, rx', reply, apply, answers, ih B' ?_ ?_ ?_⟩
    · intro q member
      rcases List.mem_cons.mp member with rfl | old
      · exact dvd_head
      · exact aligned q old
    · exact fun c member => dvd c (List.mem_cons_of_mem _ member)
    · exact fun c member => fits c (List.mem_cons_of_mem _ member)

/-- The next sequence number is one packet beyond all that have been received. -/
theorem exactBitmap_fits (E : ExactBitmap p irn received) : ∀ q ∈ received, q + p < 2 ^ 32 := by
  intro q member
  obtain ⟨top, top_member, highest⟩ :=
    received.toFinset.exists_max_image id ⟨q, List.mem_toFinset.mpr member⟩
  have above : ∀ r ∈ received, r ≤ top := fun r known => highest r (List.mem_toFinset.mpr known)
  have next := E.next_highest top (List.mem_toFinset.mp top_member) above
  have lt : irn.getNextSequenceNumber p < 2 ^ 32 := Nat.mod_lt _ (by decide)
  have := above q member
  omega

theorem runExact_fits {rx : RxOperation} {calls : List IrnCall} (R : RunExact p rx received calls) :
    (∀ q ∈ received, q + p < 2 ^ 32) ∧ ∀ call ∈ calls, call.seq + p < 2 ^ 32 := by
  induction calls generalizing rx received with
  | nil => exact ⟨exactBitmap_fits R, fun call member => by cases member⟩
  | cons call calls ih =>
    obtain ⟨E, rx', reply, _, _, rest⟩ := R
    obtain ⟨now, later⟩ := ih rest
    refine ⟨exactBitmap_fits E, fun c member => ?_⟩
    rcases List.mem_cons.mp member with rfl | member
    · exact now _ List.mem_cons_self
    · exact later c member

/-- The bitmap is exact in every run as long as every packet ends below the point where sequence
numbers wrap. -/
theorem irnBitmap_exact_iff (p : ℕ) (pos : 0 < p) (milestone : ℕ) (calls : List IrnCall)
    (dvd : ∀ call ∈ calls, p ∣ call.seq) :
    RunExact p { milestoneRx := milestone } [] calls ↔ ∀ call ∈ calls, call.seq + p < 2 ^ 32 := by
  constructor
  · exact fun R => (runExact_fits R).2
  · exact runExact_bitmap pos (bitmap_nil p) (fun q member => by cases member) dvd

/-- Four packets out of order, one of them twice. -/
theorem irnBitmap_exact_four : RunExact 1000 { milestoneRx := 0 } []
    [.receiverCheckSeq 2000, .receiverCheckSeq 0, .updateIrnState 1000, .receiverCheckSeq 2000] :=
  (irnBitmap_exact_iff 1000 (by decide) 0 _ (by decide)).mpr (by decide)

/-- The last packet of a message of almost 4 GiB, which ends where sequence numbers have wrapped. -/
theorem lastPacket_inexact : ¬ ∀ calls : List IrnCall,
    (∀ call ∈ calls, 1000 ∣ call.seq ∧ call.seq < 2 ^ 32) →
    RunExact 1000 { milestoneRx := 0 } [] calls := by
  intro all
  have run := all [.receiverCheckSeq 4294967000] (by decide)
  exact absurd ((runExact_fits run).2 _ List.mem_cons_self) (by decide)

end Rdma

end Pyrrha

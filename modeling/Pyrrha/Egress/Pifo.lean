import Mathlib.Algebra.BigOperators.Group.List.Basic
import Mathlib.Algebra.Order.Group.Nat
import Pyrrha.Egress.Queue

/-!
`PIFOQueue`: a `std::priority_queue` of packets with their ranks. The runs keep beside the queue the
packets that it stores in the order in which they were enqueued.
-/

namespace Pyrrha
open Lib

namespace Egress

inductive QueueMode where
  | packets | bytes
  deriving DecidableEq, Repr

structure RankPacket where
  rank : ℕ
  packet : Packet
  deriving DecidableEq, Repr

structure PIFOQueue where
  mode : QueueMode := .bytes
  maxPackets : ℕ := 100
  maxBytes : ℕ := 30000 * 65535
  maxBytes_lt : maxBytes < 2 ^ 32 := by decide
  packets : List RankPacket := []
  bytesInQueue : ℕ := 0

namespace PIFOQueue

/-- `DoEnqueue`; without a `RankTag` its assert fails. -/
def doEnqueue (q : PIFOQueue) (p : Packet) : Except Fault (PIFOQueue × Bool) :=
  if q.mode = .packets ∧ q.maxPackets ≤ q.packets.length then .ok (q, false)
  else if q.mode = .bytes ∧ q.maxBytes ≤ add32 q.bytesInQueue p.size then .ok (q, false)
  else match p.rank with
    | none => .error .assertion
    | some rank => .ok ({ q with
        bytesInQueue := add32 q.bytesInQueue p.size
        packets := Heap.push RankPacket.rank q.packets ⟨rank, p⟩ }, true)

def doDequeue (q : PIFOQueue) : PIFOQueue × Option Packet :=
  match q.packets with
  | [] => (q, none)
  | top :: rest => ({ q with
      packets := Heap.pop RankPacket.rank (top :: rest)
      bytesInQueue := sub32 q.bytesInQueue top.packet.size }, some top.packet)

def doPeek (q : PIFOQueue) : Option Packet := q.packets.head?.map RankPacket.packet

end PIFOQueue

/-! ### Runs -/

def RankPacket.of (p : Packet) : RankPacket := ⟨BEgressQueue.rankOf p, p⟩

inductive PifoEvent where
  | enqueue (p : Packet)
  | dequeue

/-- The queue, and what it stores in the order of the enqueues. -/
structure PifoRun where
  queue : PIFOQueue
  stored : List RankPacket := []

namespace PifoRun

def step (s : PifoRun) : PifoEvent → Except Fault PifoRun
  | .enqueue p => do
    let (queue, accepted) ← s.queue.doEnqueue p
    .ok { queue, stored := if accepted then s.stored ++ [.of p] else s.stored }
  | .dequeue =>
    let (queue, top) := s.queue.doDequeue
    .ok { queue, stored := top.elim s.stored fun p => s.stored.erase (.of p) }

def storedBytes (s : PifoRun) : ℕ := (s.stored.map fun r => r.packet.size).sum

/-- The packet fits below the byte limit. -/
def BelowLimit (s : PifoRun) : PifoEvent → Prop
  | .enqueue p => s.storedBytes + p.size < s.queue.maxBytes
  | .dequeue => True

/-- The packet leaves only packets whose ranks are all different; or it joins at most two others, and
those have different ranks if its own is smaller than both. -/
def Separate (s : PifoRun) : PifoEvent → Prop
  | .enqueue p => ((s.stored ++ [RankPacket.of p]).map RankPacket.rank).Nodup ∨ s.stored.length ≤ 2 ∧
      ((∀ r ∈ s.stored, BEgressQueue.rankOf p < r.rank) → (s.stored.map RankPacket.rank).Nodup)
  | .dequeue => True

instance (s : PifoRun) (ev : PifoEvent) : Decidable (s.BelowLimit ev) :=
  match ev with
  | .enqueue p => Nat.decLt (s.storedBytes + p.size) s.queue.maxBytes
  | .dequeue => instDecidableTrue

instance (s : PifoRun) (ev : PifoEvent) : Decidable (s.Separate ev) :=
  match ev with
  | .enqueue _ => instDecidableOr
  | .dequeue => instDecidableTrue

inductive Reachable (q : PIFOQueue) (allowed : PifoRun → PifoEvent → Prop) : PifoRun → Prop where
  | initial : Reachable q allowed { queue := { q with packets := [], bytesInQueue := 0 } }
  | step {s t : PifoRun} {ev : PifoEvent} : Reachable q allowed s → allowed s ev →
      s.step ev = .ok t → Reachable q allowed t

theorem reachable_mono {q : PIFOQueue} {allowed weaker : PifoRun → PifoEvent → Prop} {s : PifoRun}
    (h : Reachable q allowed s) (le : ∀ s ev, allowed s ev → weaker s ev) :
    Reachable q weaker s := by
  induction h with
  | initial => exact .initial
  | step _ ok run ih => exact .step ih (le _ _ ok) run

/-- The run of a list of events, as long as they are `allowed`. -/
def run (allowed : PifoRun → PifoEvent → Prop) [∀ s ev, Decidable (allowed s ev)] (s : PifoRun)
    (evs : List PifoEvent) : Option PifoRun :=
  evs.foldlM (fun s ev => if allowed s ev then (s.step ev).toOption else none) s

theorem reachable_run {q : PIFOQueue} {allowed : PifoRun → PifoEvent → Prop}
    [∀ s ev, Decidable (allowed s ev)]
    {s t : PifoRun} {evs : List PifoEvent} (start : Reachable q allowed s)
    (ends : run allowed s evs = some t) : Reachable q allowed t := by
  induction evs generalizing s with
  | nil =>
    obtain rfl := Option.some.inj ends
    exact start
  | cons ev rest ih =>
    obtain ⟨mid, first, ends⟩ := Option.bind_eq_some_iff.mp ((List.foldlM_cons ..).symm.trans ends)
    split at first
    · rename_i ok
      exact ih (.step start ok (toOption_eq_some.mp first)) ends
    · cases first

theorem exists_run {allowed : PifoRun → PifoEvent → Prop} [∀ s ev, Decidable (allowed s ev)]
    (evs : List PifoEvent) {test : PifoRun → Prop} [∀ s, Decidable (test s)]
    (ends : ((run allowed { queue := {} } evs).any fun s => decide (test s)) = true) :
    ∃ s, Reachable {} allowed s ∧ test s := by
  obtain ⟨s, ended, passes⟩ := Option.any_eq_true _ _ |>.mp ends
  exact ⟨s, reachable_run .initial ended, of_decide_eq_true passes⟩

/-! ### What a run keeps -/

variable {q : PIFOQueue} {s t : PifoRun} {p : Packet}

/-- The queue is a heap of the stored packets, and its counter is exact. -/
structure Sound (s : PifoRun) : Prop where
  heap : Heap.IsHeap RankPacket.rank s.queue.packets
  perm : s.queue.packets.Perm s.stored
  ranks : ∀ r ∈ s.stored, r = .of r.packet
  bytes : s.queue.bytesInQueue = s.storedBytes
  fits : s.storedBytes < 2 ^ 32

theorem sound_initial : Sound { queue := { q with packets := [], bytesInQueue := 0 } } where
  heap := Heap.isHeap_nil
  perm := List.Perm.refl _
  ranks _ member := absurd member List.not_mem_nil
  bytes := rfl
  fits := Nat.two_pow_pos 32

theorem enqueue_cases (h : s.step (.enqueue p) = .ok t) :
    t = s ∨ t = { queue := { s.queue with
                    bytesInQueue := add32 s.queue.bytesInQueue p.size
                    packets := Heap.push RankPacket.rank s.queue.packets (.of p) }
                  stored := s.stored ++ [.of p] } := by
  obtain ⟨⟨queue, accepted⟩, call, rest⟩ := bind_ok h
  unfold PIFOQueue.doEnqueue at call
  split at call
  · cases call
    cases rest
    exact .inl rfl
  · split at call
    · cases call
      cases rest
      exact .inl rfl
    · split at call
      · cases call
      · rename_i rank tagged
        have same : RankPacket.of p = ⟨rank, p⟩ := by rw [RankPacket.of, BEgressQueue.rankOf, tagged]; rfl
        cases call
        cases rest
        rw [same]
        exact .inr rfl

theorem dequeue_cases (h : s.step .dequeue = .ok t) :
    (s.queue.packets = [] ∧ t = s) ∨ ∃ top rest, s.queue.packets = top :: rest ∧
      t = { queue := { s.queue with
              packets := Heap.pop RankPacket.rank (top :: rest)
              bytesInQueue := sub32 s.queue.bytesInQueue top.packet.size }
            stored := s.stored.erase (.of top.packet) } := by
  unfold step PIFOQueue.doDequeue at h
  cases held : s.queue.packets with
  | nil =>
    rw [held] at h
    cases h
    exact .inl ⟨rfl, rfl⟩
  | cons top rest =>
    rw [held] at h
    cases h
    exact .inr ⟨top, rest, rfl, rfl⟩

theorem storedBytes_erase {r : RankPacket} (member : r ∈ s.stored) :
    r.packet.size + ((s.stored.erase r).map fun r => r.packet.size).sum = s.storedBytes := by
  have perm := (List.perm_cons_erase member).map fun r => r.packet.size
  rw [storedBytes, perm.sum_eq, List.map_cons, List.sum_cons]

theorem sound_step {ev : PifoEvent} (h : Sound s) (below : s.BelowLimit ev)
    (run : s.step ev = .ok t) : Sound t := by
  cases ev with
  | enqueue p =>
    rcases enqueue_cases run with rfl | rfl
    · exact h
    · obtain ⟨heap, perm⟩ := @Heap.push_spec _ _ _ RankPacket.rank s.queue.packets (.of p) h.heap
      have total : ((s.stored ++ [RankPacket.of p]).map fun r => r.packet.size).sum =
          s.storedBytes + p.size := by
        simp [storedBytes, RankPacket.of]
      have limit := s.queue.maxBytes_lt
      simp only [BelowLimit] at below
      constructor
      · exact heap
      · exact perm.trans ((h.perm.cons _).trans (List.perm_append_singleton _ _).symm)
      · intro r member
        rcases List.mem_append.mp member with old | new
        · exact h.ranks r old
        · rw [List.mem_singleton.mp new]
          rfl
      · show add32 s.queue.bytesInQueue p.size = _
        rw [storedBytes, total, h.bytes]
        exact add32_exact (by omega)
      · rw [storedBytes, total]
        omega
  | dequeue =>
    rcases dequeue_cases run with ⟨-, rfl⟩ | ⟨top, rest, held, rfl⟩
    · exact h
    · have heap := h.heap
      have perm := h.perm
      rw [held] at heap perm
      obtain ⟨heap', perm'⟩ := Heap.pop_spec heap
      have member : top ∈ s.stored := perm.subset List.mem_cons_self
      have same : RankPacket.of top.packet = top := (h.ranks top member).symm
      have total := storedBytes_erase member
      have fits := h.fits
      simp only [same]
      constructor
      · exact heap'
      · exact perm'.trans ((List.perm_cons top).mp (perm.trans (List.perm_cons_erase member)))
      · exact fun r later => h.ranks r (List.mem_of_mem_erase later)
      · show sub32 s.queue.bytesInQueue top.packet.size =
          ((s.stored.erase top).map fun r => r.packet.size).sum
        rw [h.bytes, sub32_exact fits (by omega)]
        omega
      · show ((s.stored.erase top).map fun r => r.packet.size).sum < 2 ^ 32
        omega

theorem reachable_sound (h : Reachable q BelowLimit s) : Sound s := by
  induction h with
  | initial => exact sound_initial
  | step _ below run ih => exact sound_step ih below run

/-! ### What the next dequeue does -/

/-- The next dequeue returns what Peek shows, a packet of smallest rank; and the bytes are those
stored. -/
structure Ranked (s : PifoRun) : Prop where
  peek : s.queue.doPeek = s.queue.doDequeue.2
  empty : s.queue.doDequeue.2 = none ↔ s.stored = []
  least : ∀ p, s.queue.doDequeue.2 = some p → .of p ∈ s.stored ∧
    ∀ r ∈ s.stored, BEgressQueue.rankOf p ≤ r.rank
  bytes : s.queue.bytesInQueue = s.storedBytes

/-- Of the packets of its rank the next dequeue returns the one that was enqueued first. -/
def FirstCome (s : PifoRun) : Prop :=
  ∀ p, s.queue.doDequeue.2 = some p →
    s.stored.find? (fun r => decide (r.rank = BEgressQueue.rankOf p)) = some (.of p)

theorem doDequeue_some (h : s.queue.doDequeue.2 = some p) :
    ∃ top rest, s.queue.packets = top :: rest ∧
    top.packet = p := by
  unfold PIFOQueue.doDequeue at h
  cases held : s.queue.packets with
  | nil =>
    rw [held] at h
    cases h
  | cons top rest =>
    rw [held] at h
    exact ⟨top, rest, rfl, Option.some.inj h⟩

theorem ranked_of_sound (h : Sound s) : Ranked s := by
  constructor
  · unfold PIFOQueue.doPeek PIFOQueue.doDequeue
    cases s.queue.packets <;> rfl
  · have perm := h.perm
    unfold PIFOQueue.doDequeue
    cases held : s.queue.packets with
    | nil =>
      rw [held] at perm
      exact iff_of_true rfl perm.nil_eq.symm
    | cons top rest =>
      rw [held] at perm
      refine iff_of_false (Option.some_ne_none _) fun none => ?_
      rw [none] at perm
      cases perm.eq_nil
  · intro p out
    obtain ⟨top, rest, held, rfl⟩ := doDequeue_some out
    have heap := h.heap
    have perm := h.perm
    rw [held] at heap perm
    have member : top ∈ s.stored := perm.subset List.mem_cons_self
    have same : RankPacket.of top.packet = top := (h.ranks top member).symm
    rw [same, show BEgressQueue.rankOf top.packet = top.rank from congrArg RankPacket.rank same]
    exact ⟨member, fun r other => Heap.isHeap_head heap r (perm.symm.subset other)⟩
  · exact h.bytes

/-! ### Ties -/

/-- In the heap the packets of a rank stand in the order in which they came, because their ranks are
all different or because they are few. -/
def Tied (s : PifoRun) : Prop :=
  Heap.Stable RankPacket.rank s.queue.packets s.stored ∧
    ((s.stored.map RankPacket.rank).Nodup ∨ s.stored.length ≤ 3)

theorem tied_of_nodup (h : Sound s) (distinct : (s.stored.map RankPacket.rank).Nodup) : Tied s :=
  ⟨Heap.stable_of_nodup h.perm distinct, .inl distinct⟩

theorem tied_enqueue (h : Sound s) (after : Sound t) (tied : Tied s)
    (apart : s.Separate (.enqueue p)) (run : s.step (.enqueue p) = .ok t) : Tied t := by
  rcases enqueue_cases run with rfl | rfl
  · exact tied
  · rcases apart with distinct | ⟨few, apart⟩
    · exact tied_of_nodup after distinct
    · refine ⟨Heap.push_stable h.heap (h.perm.length_eq ▸ few) (fun less => ?_) tied.1, .inr ?_⟩
      · have smaller : ∀ r ∈ s.stored, BEgressQueue.rankOf p < r.rank := fun r member =>
          less r (h.perm.symm.subset member)
        exact (h.perm.map RankPacket.rank).nodup_iff.mpr (apart smaller)
      · show (s.stored ++ [RankPacket.of p]).length ≤ 3
        rw [List.length_append, List.length_singleton]
        omega

theorem tied_dequeue (h : Sound s) (after : Sound t) (tied : Tied s)
    (run : s.step .dequeue = .ok t) : Tied t := by
  rcases dequeue_cases run with ⟨-, rfl⟩ | ⟨top, rest, held, rfl⟩
  · exact tied
  · obtain ⟨stable, distinct | few⟩ := tied
    · exact tied_of_nodup after (distinct.sublist (List.erase_sublist.map _))
    · have member : top ∈ s.stored := h.perm.subset (held ▸ List.mem_cons_self)
      have same : RankPacket.of top.packet = top := (h.ranks top member).symm
      have length := h.perm.length_eq
      rw [held] at stable length
      rw [same]
      refine ⟨Heap.pop_stable ?_ stable, .inr (List.length_erase_le.trans few)⟩
      rw [List.length_cons] at length
      omega

theorem firstCome_of_tied (h : Sound s) (tied : Tied s) : FirstCome s := by
  intro p out
  obtain ⟨top, rest, held, rfl⟩ := doDequeue_some out
  have member : top ∈ s.stored := h.perm.subset (held ▸ List.mem_cons_self)
  have same : RankPacket.of top.packet = top := (h.ranks top member).symm
  have stable := tied.1
  rw [held] at stable
  rw [same, show BEgressQueue.rankOf top.packet = top.rank from congrArg RankPacket.rank same]
  exact Heap.stable_find stable

/-- A queue keeps the packets of a rank in order as long as it holds no tie, or three packets at most
and no smaller rank comes to two equal ones. -/
theorem reachable_in_order (h : Reachable q (fun s ev => s.BelowLimit ev ∧ s.Separate ev) s) :
    Ranked s ∧ FirstCome s := by
  have sound : Sound s := reachable_sound (reachable_mono h fun _ _ ok => ok.1)
  refine ⟨ranked_of_sound sound, firstCome_of_tied sound ?_⟩
  clear sound
  induction h with
  | initial => exact tied_of_nodup sound_initial List.nodup_nil
  | @step s t ev before ok run ih =>
    have sound : Sound s := reachable_sound (reachable_mono before fun _ _ ok => ok.1)
    have after : Sound t := sound_step sound ok.1 run
    cases ev with
    | enqueue p => exact tied_enqueue sound after ih ok.2 run
    | dequeue => exact tied_dequeue sound after ih run

def dataPacket (size : ℕ) : Packet where
  l3Prot := .udp
  udpPg := 3
  tknPg := 0
  dip := 0
  size := size
  qpid := none
  rank := some 0
  schTag := false
  pfc := none

/-- Three packets of one rank, the first of them sent. -/
theorem reachable_in_order_three :
    ∃ s, Reachable {} (fun s ev => s.BelowLimit ev ∧ s.Separate ev) s ∧
      s.stored.map (fun r => r.packet.size) = [2, 3] ∧ Ranked s ∧ FirstCome s := by
  obtain ⟨s, reached, two⟩ := @exists_run (fun s ev => s.BelowLimit ev ∧ s.Separate ev) _
    [.enqueue (dataPacket 1), .enqueue (dataPacket 2), .enqueue (dataPacket 3), .dequeue]
    (fun s => s.stored.map (fun r => r.packet.size) = [2, 3]) _ (by decide +kernel)
  exact ⟨s, reached, two, reachable_in_order reached⟩

/-- Of four packets of one rank the third leaves before the second. -/
theorem dequeue_overtakes : ∃ s, Reachable {} BelowLimit s ∧
    s.stored.map (fun r => r.packet.size) = [2, 3, 4] ∧
    s.queue.doDequeue.2 = some (dataPacket 3) :=
  exists_run [.enqueue (dataPacket 1), .enqueue (dataPacket 2), .enqueue (dataPacket 3),
    .enqueue (dataPacket 4), .dequeue] (by decide +kernel)

end PifoRun

end Egress

end Pyrrha

import Mathlib.Algebra.BigOperators.Intervals
import Mathlib.Algebra.Order.BigOperators.Group.Finset
import Mathlib.Algebra.Order.Ring.Nat
import Pyrrha.Switch.Tables

/-!
A local root with a paused upstream has packets in an output queue, as long as every packet admitted
to an output queue is also stored: then the admission counters of these queues are exact, and the
dequeue that empties the last one resumes everybody.
-/

namespace Pyrrha
open Lib Relation

variable {n : ℕ} {cfg : Config n}

/-- The queues a root is measured by: the output queues except queue 0. -/
def IsOutput (q : ℕ) : Prop := 1 ≤ q ∧ q < queueNum

instance (q : ℕ) : Decidable (IsOutput q) := inferInstanceAs (Decidable (_ ∧ _))

namespace Switch

/-! ### Exact admission counters -/

/-- The admission counters of the output queues are their bytes, and these queues hold no frames. -/
structure Metered (s : Switch n) : Prop where
  total : ∀ dev, s.bytesInQueueTotal dev = ∑ q ∈ Finset.range (s.nQueue dev), s.bytesInQueue dev q
  small : ∀ dev, s.bytesInQueueTotal dev ≤ 2 ^ 31
  data : ∀ dev q p, 1 ≤ q → p ∈ s.queues dev q → ¬p.isFrame ∧ p.header.l3Prot ≠ .switchAck
  egress : ∀ dev q, IsOutput q → s.egressBytes dev q = s.bytesInQueue dev q

theorem sum_add_at {f g : ℕ → ℕ} {N a d : ℕ} (lt : a < N)
    (change : ∀ q, g q = f q + if q = a then d else 0) :
    ∑ q ∈ Finset.range N, g q = ∑ q ∈ Finset.range N, f q + d := by
  simp only [change, Finset.sum_add_distrib, Finset.sum_ite_eq', Finset.mem_range, lt, if_true]

theorem bytes_le_total {s : Switch n} (M : Metered s) {dev : Fin n} {q : ℕ}
    (lt : q < s.nQueue dev) : s.bytesInQueue dev q ≤ s.bytesInQueueTotal dev := by
  rw [M.total dev]
  exact Finset.single_le_sum (f := s.bytesInQueue dev) (fun _ _ => Nat.zero_le _)
    (Finset.mem_range.mpr lt)

theorem metered_same {s t : Switch n} (M : Metered s) (queues : t.queues = s.queues)
    (bytes : t.bytesInQueue = s.bytesInQueue) (total : t.bytesInQueueTotal = s.bytesInQueueTotal)
    (nQueue : t.nQueue = s.nQueue)
    (egress : ∀ dev q, IsOutput q → t.egressBytes dev q = s.egressBytes dev q) : Metered t where
  total dev := by rw [total, nQueue, bytes, M.total]
  small dev := by rw [total]; exact M.small dev
  data dev q p hq member := by
    rw [queues] at member
    exact M.data dev q p hq member
  egress dev q hq := by rw [egress dev q hq, bytes, M.egress dev q hq]

theorem metered_push {s t : Switch n} (M : Metered s) {dev : Fin n} {q : ℕ} {p : Packet n}
    (registered : q < s.nQueue dev) (room : s.bytesInQueueTotal dev + p.size ≤ 2 ^ 31)
    (data : 1 ≤ q → ¬p.isFrame ∧ p.header.l3Prot ≠ .switchAck)
    (queues : t.queues = (s.pushQueue dev p q).queues)
    (bytes : t.bytesInQueue = (s.pushQueue dev p q).bytesInQueue)
    (total : t.bytesInQueueTotal = (s.pushQueue dev p q).bytesInQueueTotal)
    (nQueue : t.nQueue = s.nQueue) (charged : ∀ x c, IsOutput c → t.egressBytes x c =
      if x = dev ∧ c = q then add32 (s.egressBytes x c) p.size else s.egressBytes x c) :
      Metered t where
  total x := by
    rw [total, nQueue, bytes]
    by_cases here : x = dev
    · subst here
      rw [sum_add_at (f := s.bytesInQueue x) (d := p.size) registered]
      · simp [pushQueue, M.total]
      · intro c
        simp only [pushQueue, update₂_apply, true_and]
        split
        · rename_i eq
          rw [eq]
        · rfl
    · rw [show (s.pushQueue dev p q).bytesInQueue x =
        s.bytesInQueue x from update₂_row _ here _ _, ← M.total]
      simp [pushQueue, here]
  small x := by
    rw [total]
    by_cases here : x = dev
    · simpa [pushQueue, here] using room
    · simpa [pushQueue, here] using M.small x
  data x c a hc member := by
    rw [queues] at member
    simp only [pushQueue, update₂_apply] at member
    split at member
    · rename_i eq
      rcases List.mem_append.mp member with member | member
      · exact M.data dev q a (by omega) member
      · obtain rfl := List.mem_singleton.mp member
        exact data (by omega)
    · exact M.data x c a hc member
  egress x c hc := by
    rw [charged x c hc, bytes, M.egress x c hc]
    simp only [pushQueue, update₂_apply]
    split
    · rename_i eq
      have fits := bytes_le_total M registered
      rw [eq.1, eq.2, add32]
      omega
    · rfl

theorem metered_pop {s t : Switch n} (T : Tables s) (M : Metered s) {dev : Fin n} {q k : ℕ}
    {p : Packet n} (registered : q < s.nQueue dev) (at_k : (s.queues dev q)[k]? = some p)
    (queues : t.queues = (s.popQueue dev q k p).queues)
    (bytes : t.bytesInQueue = (s.popQueue dev q k p).bytesInQueue)
    (total : t.bytesInQueueTotal = (s.popQueue dev q k p).bytesInQueueTotal)
    (nQueue : t.nQueue = s.nQueue) (credited : ∀ x c, IsOutput c → t.egressBytes x c =
      if x = dev ∧ c = q then s.egressBytes x c - p.size else s.egressBytes x c) : Metered t where
  total x := by
    rw [total, nQueue, bytes]
    by_cases here : x = dev
    · subst here
      have enough : p.size ≤ s.bytesInQueue x q := by
        have := size_eraseIdx at_k
        rw [T.bytes x q]
        omega
      have before := sum_add_at (f := (s.popQueue x q k p).bytesInQueue x) (g := s.bytesInQueue x)
        (d := p.size) registered fun c => by
          simp only [popQueue, update₂_apply, true_and]
          split
          · rename_i eq
            rw [eq]
            omega
          · rfl
      rw [← M.total x] at before
      simp only [popQueue, Function.update_self] at before ⊢
      omega
    · rw [show (s.popQueue dev q k p).bytesInQueue x =
        s.bytesInQueue x from update₂_row _ here _ _, ← M.total]
      simp [popQueue, here]
  small x := by
    rw [total]
    have := M.small x
    by_cases here : x = dev
    · simp only [popQueue, here, Function.update_self]
      have := M.small dev
      omega
    · simpa [popQueue, here] using M.small x
  data x c a hc member := by
    rw [queues] at member
    simp only [popQueue, update₂_apply] at member
    split at member
    · rename_i eq
      exact M.data dev q a (by omega) (List.mem_of_mem_eraseIdx member)
    · exact M.data x c a hc member
  egress x c hc := by
    rw [credited x c hc, bytes, M.egress x c hc]
    simp only [popQueue, update₂_apply]
    split
    · rename_i eq
      rw [eq.1, eq.2]
    · rfl

/-! ### The records of the own root -/

/-- Roots are not measured on `e`: only down ports are, and `e` is an up port. -/
def ungoverned (cfg : Config n) (e : Fin n) : Bool := cfg.onlyDownPortEnable && cfg.upPort e

/-- Somebody paused by the root on `e` means packets in an output queue of `e`. -/
def Backed (cfg : Config n) (s : Switch n) : Prop :=
  ∀ e i, s.upstreamPaused e i = some true →
    ungoverned cfg e = false ∧ ∃ q, IsOutput q ∧ s.queues e q ≠ []

theorem notifyEnqueue_upstream {s t : Switch n} {idx : Fin n} {q : ℕ} {p : Packet n}
    (h : s.notifyEnqueue cfg idx q p = .ok t) {e i : Fin n}
    (paused : t.upstreamPaused e i = some true) :
    s.upstreamPaused e i = some true ∨ (e = idx ∧ IsOutput q ∧ ungoverned cfg e = false) := by
  unfold notifyEnqueue at h
  split at h
  · cases h
    exact .inl paused
  rename_i nonzero
  split at h
  · rename_i oq
    cases h
    unfold notifyEnqueueIntoOQ at paused
    split at paused
    · exact .inl paused
    rename_i governed
    split at paused
    · simp only [setRootPause, setUpstreamPaused, update₂_apply] at paused
      split at paused
      · rename_i eq
        refine .inr ⟨eq.1, ⟨by omega, oq⟩, ?_⟩
        rw [eq.1]
        simpa [ungoverned] using governed
      · exact .inl paused
    · exact .inl paused
  · obtain ⟨root, e', _, _, steps⟩ := notifyEnqueueIntoCIQ_ctl h
    rw [entryCtls_upstream steps] at paused
    exact .inl paused

theorem notifyDequeue_ciq_upstream {s t : Switch n} {dev : Fin n} {q : ℕ} {p : Packet n}
    (ciq : queueNum ≤ q) (h : s.notifyDequeue cfg dev q p = .ok t) :
    t.upstreamPaused = s.upstreamPaused := by
  have pos : 0 < queueNum := by decide
  rw [notifyDequeue, if_neg (by omega), if_neg (by omega)] at h
  obtain ⟨root, e, _, _, steps⟩ := notifyDequeueFromCIQ_ctl h
  have same := entryCtls_upstream steps
  exact same

theorem signalCtl_upstream {s t : Switch n} {tag : CITag} {p : Fin n} (h : SignalCtl cfg tag p s t)
    {e i : Fin n} (paused : t.upstreamPaused e i = some true) :
    s.upstreamPaused e i = some true := by
  cases h with
  | startMerge e' found =>
    simp only [startMerge] at paused
    split at paused
    · cases paused
    · exact paused
  | retire e' old found foundOld =>
    rw [retireOldRoot_eq p found foundOld] at paused
    unfold unpauseOld at paused
    split at paused <;> exact paused
  | rootDealloc e' =>
    simp only [setRootDealloc, setUpstreamPaused, update₂_apply] at paused
    split at paused
    · cases paused
    · exact paused
  | _ => exact paused

theorem signalCtls_upstream {s t : Switch n} {tag : CITag} {p : Fin n}
    (h : SignalCtls cfg tag p s t) {e i : Fin n} (paused : t.upstreamPaused e i = some true) :
    s.upstreamPaused e i = some true := by
  induction h with
  | refl => exact paused
  | tail _ last ih =>
    rcases last with entry | signal
    · rw [entry.2] at paused
      exact ih paused
    · exact ih (signalCtl_upstream signal paused)

theorem signalCtl_metered {s t : Switch n} {tag : CITag} {p : Fin n} (T : Tables s) (M : Metered s)
    (h : SignalCtl cfg tag p s t) : Metered t := by
  have T' := signalCtl_tables T h
  have queues := (signalCtl_queues T h).1
  have bytes : t.bytesInQueue = s.bytesInQueue := by
    funext x q
    rw [T'.bytes, T.bytes, queues]
  have others : t.bytesInQueueTotal = s.bytesInQueueTotal ∧
      (∀ x q, IsOutput q → t.egressBytes x q = s.egressBytes x q) ∧
      (t.nQueue = s.nQueue ∨ t.nQueue = Function.update s.nQueue p (s.nQueue p + 1)) := by
    cases h with
    | register e st b =>
      refine ⟨rfl, fun x q hq => ?_, .inr rfl⟩
      have high := T.nQueue p
      exact update₂_of_ne _ _ fun h => by have := hq.2; omega
    | retire e old found foundOld =>
      rw [retireOldRoot_eq p found foundOld]
      unfold unpauseOld
      split <;> exact ⟨rfl, fun _ _ _ => rfl, .inl rfl⟩
    | _ => exact ⟨rfl, fun _ _ _ => rfl, .inl rfl⟩
  obtain ⟨total, egress, nQueue⟩ := others
  refine ⟨fun x => ?_, fun x => by rw [total]; exact M.small x, fun x q a hq member => ?_,
    fun x q hq => by rw [egress x q hq, bytes, M.egress x q hq]⟩
  · rw [total, bytes, M.total]
    rcases nQueue with same | grown
    · rw [same]
    · rw [grown]
      by_cases here : x = p
      · subst here
        -- the new queue is empty
        have none : s.bytesInQueue x (s.nQueue x) = 0 := by
          have empty : s.queues x (s.nQueue x) = [] := by
            by_contra nonempty
            exact T.stored x (s.nQueue x) (T.nQueue x) nonempty (tables_fresh T le_rfl)
          rw [T.bytes, empty]
          rfl
        rw [Function.update_self, Finset.sum_range_succ, none, Nat.add_zero]
      · rw [Function.update_of_ne here]
  · rw [queues] at member
    exact M.data x q a hq member

/-! ### Operations -/

/-- What runs keep of the own roots, besides the coherence of the tables. -/
def Measured (cfg : Config n) (s : Switch n) : Prop := Metered s ∧ Backed cfg s

theorem queue_registered {s : Switch n} (T : Tables s) {dev : Fin n} {q : ℕ}
    (place : queueNum ≤ q → s.ciqRootMap dev q ≠ none) : q < s.nQueue dev := by
  by_cases oq : q < queueNum
  · have := T.nQueue dev
    omega
  · obtain ⟨r, mapped⟩ := Option.ne_none_iff_exists'.mp (place (by omega))
    exact (T.range dev q r mapped).2

theorem accept_measured {s t : Switch n} (T : Tables s) (M : Measured cfg s) {idx : Fin n}
    {p : Packet n} (data : ¬p.isFrame) (taken : Taken cfg IsOutput s idx p)
    (h : s.acceptPacket cfg idx p = .ok t) :
    Measured cfg t := by
  rcases acceptPacket_cases h with rfl | ⟨q, u, matched, admitted, header, entered, rfl⟩
  · exact M
  have same := notifyEnqueue_buffers entered
  have total : u.bytesInQueueTotal = s.bytesInQueueTotal := same.bytesInQueueTotal
  have charged : ∀ x c, u.egressBytes x c =
      if x = idx ∧ c = q then add32 (s.egressBytes x c) p.size else s.egressBytes x c := by
    intro x c
    rw [same.egressBytes]
    simp only [updateEgressAdmission, setEgress, update₂_apply]
    split
    · rename_i eq
      rw [eq.1, eq.2]
    · rfl
  have queues : u.queues = s.queues := same.queues
  have place : queueNum ≤ q → s.ciqRootMap idx q ≠ none := (notifyEnqueue_map entered).2
  by_cases fits : s.bytesInQueueTotal idx + p.size < cfg.maxBytes
  · have pushed : u.switchSend cfg idx q p = u.pushQueue idx p q := by
      simp [switchSend, doEnqueue, total, fits]
    have room := cfg.maxBytes_le
    rw [pushed]
    constructor
    · refine metered_push M.1 (queue_registered T place) (by omega)
        (fun _ => ⟨data, header⟩) ?_ ?_ ?_ same.nQueue fun x c _ => charged x c
      · simp only [pushQueue, queues]
      · simp only [pushQueue, same.bytesInQueue]
        rfl
      · simp only [pushQueue, total]
    · intro e i paused
      rcases notifyEnqueue_upstream entered paused with before | ⟨rfl, output, governed⟩
      · obtain ⟨governed, c, output, nonempty⟩ := M.2 e i before
        refine ⟨governed, c, output, ?_⟩
        simp only [pushQueue, update₂_apply, queues]
        split
        · simp
        · exact nonempty
      · exact ⟨governed, q, output, by simp [pushQueue]⟩
  · -- only a packet for queue 0 or a CIQ can be lost
    have lost : u.switchSend cfg idx q p = u := by simp [switchSend, doEnqueue, total, fits]
    have other : ¬IsOutput q := fun output => fits (taken q matched admitted output)
    rw [lost]
    constructor
    · refine metered_same M.1 queues same.bytesInQueue total same.nQueue fun x c hc => ?_
      rw [charged, if_neg]
      rintro ⟨_, rfl⟩
      exact other hc
    · intro e i paused
      rw [queues]
      rcases notifyEnqueue_upstream entered paused with before | ⟨_, output, _⟩
      · exact M.2 e i before
      · exact absurd output other

theorem checkRootResume_false {s : Switch n} {i e : Fin n} {q : ℕ}
    (threshold : 1 ≤ cfg.thResume i e)
    (kept : s.checkRootResume cfg i e q = false) : s.egressBytes e q ≠ 0 := by
  simp only [checkRootResume, decide_eq_false_iff_not] at kept
  omega

theorem queue_nonempty {s : Switch n} (T : Tables s) {dev : Fin n} {q : ℕ}
    (h : s.bytesInQueue dev q ≠ 0) : s.queues dev q ≠ [] := by
  intro empty
  rw [T.bytes, empty] at h
  exact h rfl

/-- A data packet leaves an output queue: the state of the resume tests, and their effect. -/
theorem transmit_output {s t : Switch n} (T : Tables s) (M : Metered s) {dev : Fin n} {q k : ℕ}
    {p : Packet n} (output : IsOutput q) (at_k : (s.queues dev q)[k]? = some p)
    (h : ((s.popQueue dev q k p).transmitStart dev q p).switchNotifyDequeue cfg dev q p = .ok t) :
    ∃ u, Metered u ∧ Tables u ∧ u.queues = (s.popQueue dev q k p).queues ∧
      u.upstreamPaused = s.upstreamPaused ∧ u.out = s.out ∧
      t = u.notifyDequeueFromOQ cfg dev q := by
  have member := List.mem_of_getElem? at_k
  obtain ⟨data, header⟩ := M.data dev q p output.1 member
  rcases switchNotifyDequeue_cases h with ⟨frame | ack, _⟩ | ⟨_, _, u, removed, notified⟩
  · exact absurd frame data
  · exact absurd ack header
  obtain ⟨_, rfl⟩ := removeFromEgressAdmission_ok removed
  have positive := output.1
  rw [notifyDequeue, if_neg (by omega), if_pos output.2] at notified
  cases notified
  have registered : q < s.nQueue dev := lt_of_lt_of_le output.2 (T.nQueue dev)
  refine ⟨_, ?_, egress_tables (sent_tables T at_k) dev q _, rfl, rfl, rfl, rfl⟩
  refine metered_pop T M registered at_k rfl rfl rfl rfl fun x c _ => ?_
  simp only [setEgress, update₂_apply]
  split
  · rename_i eq
    rw [eq.1, eq.2]
    rfl
  · rfl

theorem notifyDequeueFromOQ_backed {s : Switch n} (T : Tables s) (M : Metered s)
    {dev : Fin n} {q : ℕ} (output : IsOutput q) (thresholds : ∀ i e, 1 ≤ cfg.thResume i e)
    (before : ∀ e i, s.upstreamPaused e i = some true →
      ungoverned cfg e = false ∧ (e ≠ dev → ∃ c, IsOutput c ∧ s.queues e c ≠ [])) :
    Backed cfg (s.notifyDequeueFromOQ cfg dev q) := by
  intro e i paused
  by_cases idle : (cfg.onlyDownPortEnable && cfg.upPort dev) = true
  · rw [notifyDequeueFromOQ, if_pos idle] at paused ⊢
    obtain ⟨governed, others⟩ := before e i paused
    refine ⟨governed, others ?_⟩
    rintro rfl
    rw [ungoverned, idle] at governed
    cases governed
  · rw [notifyDequeueFromOQ, if_neg idle] at paused ⊢
    simp only at paused ⊢
    split at paused
    · cases paused
    · rename_i stays
      obtain ⟨governed, others⟩ := before e i paused
      refine ⟨governed, ?_⟩
      by_cases here : e = dev
      · subst here
        -- not resumed: the queue that was left still holds bytes
        refine ⟨q, output, queue_nonempty T ?_⟩
        rw [← M.egress e q output]
        refine checkRootResume_false (thresholds i e) ?_
        simpa [resumesUpstream, paused] using stays
      · exact others here

theorem transmit_measured {s t : Switch n} (T : Tables s) (M : Measured cfg s)
    (thresholds : ∀ i e, 1 ≤ cfg.thResume i e) {dev : Fin n} {pick : Option (ℕ × ℕ)}
    (h : s.dequeueAndTransmit cfg dev pick = .ok t) : Measured cfg t := by
  rcases dequeueAndTransmit_cases h with rfl | ⟨q, k, p, oq, _, at_k, left⟩
  · exact M
  -- other output queues stay as they are
  have kept : ∀ e c, ¬(e = dev ∧ c = q) → (s.popQueue dev q k p).queues e c = s.queues e c :=
    fun e c other => update₂_of_ne _ _ other
  by_cases output : IsOutput q
  · obtain ⟨u, metered, tables, queues, upstream, _, rfl⟩ := transmit_output T M.1 output at_k left
    constructor
    · refine metered_same metered ?_ ?_ ?_ ?_ fun _ _ _ => ?_ <;>
        (unfold notifyDequeueFromOQ; split <;> rfl)
    · refine notifyDequeueFromOQ_backed tables metered output thresholds fun e i paused => ?_
      rw [upstream] at paused
      obtain ⟨governed, c, hc, nonempty⟩ := M.2 e i paused
      exact ⟨governed, fun other => ⟨c, hc, by rw [queues, kept e c fun h => other h.1]; exact nonempty⟩⟩
  · -- queue 0 is not measured
    have zero : q = 0 := by
      by_contra nonzero
      exact output ⟨by omega, oq⟩
    subst zero
    have registered : 0 < s.nQueue dev := lt_of_lt_of_le (by decide) (T.nQueue dev)
    have unmeasured : ∀ c, IsOutput c → c ≠ 0 := fun c hc => by have := hc.1; omega
    have backed : ∀ u : Switch n, u.upstreamPaused = s.upstreamPaused →
        u.queues = (s.popQueue dev 0 k p).queues → Backed cfg u := by
      intro u upstream queues e i paused
      rw [upstream] at paused
      obtain ⟨governed, c, hc, nonempty⟩ := M.2 e i paused
      refine ⟨governed, c, hc, ?_⟩
      rw [queues, kept e c fun h => unmeasured c hc h.2]
      exact nonempty
    rcases switchNotifyDequeue_cases left with ⟨_, rfl⟩ | ⟨_, _, u, removed, notified⟩
    · refine ⟨metered_pop T M.1 registered at_k rfl rfl rfl rfl fun x c hc => ?_, backed _ rfl rfl⟩
      rw [if_neg fun h => unmeasured c hc h.2]
      rfl
    · obtain ⟨_, rfl⟩ := removeFromEgressAdmission_ok removed
      rw [notifyDequeue, if_pos rfl] at notified
      cases notified
      refine ⟨metered_pop T M.1 registered at_k rfl rfl rfl rfl fun x c hc => ?_, backed _ rfl rfl⟩
      rw [if_neg fun h => unmeasured c hc h.2]
      exact update₂_of_ne _ _ fun h => unmeasured c hc h.2

theorem move_measured {s t : Switch n} (T : Tables s) (M : Measured cfg s) {dev : Fin n}
    {level q : ℕ}
    {b b' : Bool} (visited : q ∈ s.priorities dev level) (h : hierMove cfg dev level (s, b) q =
      .ok (t, b')) :
    Measured cfg t := by
  obtain ⟨high, registered⟩ := T.levels dev level q visited
  have oq : ∀ c, IsOutput c → c ≠ q := fun c hc => by have := hc.2; omega
  rcases hierMove_cases h with rfl | ⟨p, rest, nextQ, u, v, w, head, _, left, removed, entered, rfl⟩
  · exact M
  have at_head : (s.queues dev q)[0]? = some p := by rw [head]; rfl
  have popped : Metered (s.popQueue dev q 0 p) :=
    metered_pop T M.1 registered at_head rfl rfl rfl rfl fun x c hc => by
      rw [if_neg fun h => oq c hc h.2]
      rfl
  have first := notifyDequeue_buffers left
  have second := notifyEnqueue_buffers entered
  have U := notifyDequeue_tables (head_tables T head) left
  have V := moved_tables (head_tables T head) left removed entered
  have place := (notifyEnqueue_map entered).2
  obtain ⟨_, rfl⟩ := removeFromEgressAdmission_ok removed
  have metered : Metered u :=
    metered_same popped first.queues first.bytesInQueue first.bytesInQueueTotal first.nQueue
      fun x c _ => by rw [first.egressBytes]
  have data := M.1.data dev q p (by have : 0 < queueNum := by decide
                                    omega) (by simp [head])
  -- the packet fits where it came from
  have room : u.bytesInQueueTotal dev + p.size ≤ 2 ^ 31 := by
    have enough := bytes_le_total M.1 registered
    have small := M.1.small dev
    have size := size_eraseIdx at_head
    rw [T.bytes dev q] at enough
    rw [first.bytesInQueueTotal]
    simp only [popQueue, Function.update_self]
    omega
  have queues : w.queues = (u.pushQueue dev p nextQ).queues := second.queues
  constructor
  · refine metered_push metered (queue_registered U place) room (fun _ => data) queues
      second.bytesInQueue second.bytesInQueueTotal second.nQueue fun x c hc => ?_
    have before : w.egressBytes x c = u.egressBytes x c := by
      rw [second.egressBytes]
      exact update₂_of_ne _ _ fun h => oq c hc h.2
    simp only [updateEgressAdmission, setEgress, update₂_apply]
    split
    · rename_i eq
      rw [← eq.1, ← eq.2, before]
    · exact before
  · intro e i paused
    have stays : ∀ c, IsOutput c → s.queues e c ≠ [] → w.queues e c ≠ [] := by
      intro c hc nonempty
      have kept : u.queues e c = s.queues e c := by
        rw [first.queues]
        exact update₂_of_ne _ _ fun h => oq c hc h.2
      rw [queues]
      simp only [pushQueue, update₂_apply]
      split
      · simp
      · rw [kept]
        exact nonempty
    rcases notifyEnqueue_upstream entered paused with before | ⟨rfl, output, governed⟩
    · have before : u.upstreamPaused e i = some true := before
      rw [notifyDequeue_ciq_upstream high left] at before
      obtain ⟨governed, c, hc, nonempty⟩ := M.2 e i before
      exact ⟨governed, c, hc, stays c hc nonempty⟩
    · refine ⟨governed, nextQ, output, ?_⟩
      rw [show (w.updateEgressAdmission e nextQ p.size).queues = w.queues from rfl, queues]
      simp [pushQueue]

theorem packetCtl_metered {s t : Switch n} (M : Metered s) (h : PacketCtl cfg s t) : Metered t := by
  have same := packetCtl_buffers h
  exact metered_same M same.queues same.bytesInQueue same.bytesInQueueTotal same.nQueue
    fun dev q _ => by rw [same.egressBytes]

theorem signals_measured {s t : Switch n} {tag : CITag} {p : Fin n} (T : Tables s)
    (M : Measured cfg s) (h : SignalCtls cfg tag p s t) : Measured cfg t := by
  constructor
  · exact (signalCtls_preserve (I := fun u => Tables u ∧ Metered u)
      (fun _ _ before last => ⟨packetCtl_tables before.1 last, packetCtl_metered before.2 last⟩)
      (fun _ _ before last => ⟨signalCtl_tables before.1 last,
        signalCtl_metered before.1 before.2 last⟩)
      ⟨T, M.1⟩ h).2
  · intro e i paused
    rw [(signalCtls_queues T h).1]
    exact M.2 e i (signalCtls_upstream h paused)

theorem frame_measured {s : Switch n} (T : Tables s) (M : Measured cfg s) (dev : Fin n)
    (p : Packet n) : Measured cfg (s.switchSend cfg dev 0 p) := by
  have registered : 0 < s.nQueue dev := lt_of_lt_of_le (by decide) (T.nQueue dev)
  have unmeasured : ∀ c, IsOutput c → c ≠ 0 := fun c hc => by have := hc.1; omega
  unfold switchSend doEnqueue
  split
  · rename_i fits
    have room := cfg.maxBytes_le
    constructor
    · refine metered_push M.1 registered (by omega)
        (fun h => by omega) rfl rfl rfl rfl fun x c hc => ?_
      rw [if_neg fun h => unmeasured c hc h.2]
      rfl
    · intro e i paused
      obtain ⟨governed, c, hc, nonempty⟩ := M.2 e i paused
      refine ⟨governed, c, hc, ?_⟩
      rw [show (some (s.pushQueue dev p 0)).getD s = s.pushQueue dev p 0 from rfl,
        show (s.pushQueue dev p 0).queues e c = s.queues e c from
          update₂_of_ne _ _ fun h => unmeasured c hc h.2]
      exact nonempty
  · exact M

theorem operated_measured {s t : Switch n} {op : Op n} (T : Tables s) (M : Measured cfg s)
    (thresholds : ∀ i e, 1 ≤ cfg.thResume i e)
    (taken : ∀ idx p, op = .accept idx p → Taken cfg IsOutput s idx p) (h : Operated cfg s op t) :
    Measured cfg t := by
  cases h with
  | accept data call => exact accept_measured T M data (taken _ _ rfl) call
  | transmit call => exact transmit_measured T M thresholds call
  | move visited call => exact move_measured T M visited call
  | signal call =>
    obtain ⟨u, pick', steps, sent⟩ := receiveCI_ctl call
    exact transmit_measured (signalCtls_tables T steps) (signals_measured T M steps) thresholds sent
  | frame => exact frame_measured T M _ _

theorem initial_measured : Measured cfg ({} : Switch n) := by
  constructor
  · exact ⟨by simp, by simp, fun _ _ _ _ member => by simp at member, fun _ _ _ => rfl⟩
  · intro e i paused
    cases paused

theorem operates_measured {s : Switch n} (thresholds : ∀ i e, 1 ≤ cfg.thResume i e)
    (h : OperatesTaken cfg IsOutput s) : Measured cfg s := by
  induction h with
  | initial => exact initial_measured
  | step before taken call ih =>
      exact operated_measured (operates_tables before) ih thresholds taken call

/-! ### Runs -/

theorem transmit_resumes {s t : Switch n} (T : Tables s) (M : Measured cfg s)
    (thresholds : ∀ i e, 1 ≤ cfg.thResume i e) {e i : Fin n} {pick : Option (ℕ × ℕ)}
    (h : s.dequeueAndTransmit cfg e pick = .ok t) (emptied : ∀ q, IsOutput q → t.queues e q = [])
    (paused : s.upstreamPaused e i = some true) :
    t.out i = s.out i ++ [resumeTag ⟨cfg.mId, e⟩] ∧ t.upstreamPaused e i = some false := by
  obtain ⟨governed, c, hc, nonempty⟩ := M.2 e i paused
  rcases dequeueAndTransmit_cases h with rfl | ⟨q, k, p, oq, _, at_k, left⟩
  · exact absurd (emptied c hc) nonempty
  have queues : t.queues = (s.popQueue e q k p).queues := by
    rcases switchNotifyDequeue_cases left with ⟨_, rfl⟩ | ⟨_, _, u, removed, notified⟩
    · rfl
    · obtain ⟨_, rfl⟩ := removeFromEgressAdmission_ok removed
      exact (notifyDequeue_buffers notified).queues
  -- the queue that was emptied is the one the packet left
  have at_q : c = q := by
    by_contra other
    have kept : t.queues e c = s.queues e c := by
      rw [queues]
      exact update₂_of_ne _ _ fun h => other h.2
    exact nonempty (by rw [← kept, emptied c hc])
  subst at_q
  obtain ⟨u, metered, tables, queues', upstream, out, rfl⟩ := transmit_output T M.1 hc at_k left
  have empty : u.egressBytes e c = 0 := by
    rw [metered.egress e c hc, tables.bytes, queues', ← queues, emptied c hc]
    rfl
  have threshold := thresholds i e
  have resumes : u.resumesUpstream cfg e c i = true := by
    simp only [resumesUpstream, checkRootResume, upstream, paused, empty]
    simp
    omega
  have running : ¬(cfg.onlyDownPortEnable && cfg.upPort e) = true := by
    rw [ungoverned] at governed
    simp [governed]
  rw [notifyDequeueFromOQ, if_neg running]
  simp [resumes, out]

/-- A congestion root never forgets a paused upstream, on runs in which no packet admitted to an
output queue is lost: while somebody is paused, one of the queues holds a packet, and the
transmission that empties the last of them sends a resume to all that are paused. -/
theorem paused_backed {s : Switch n} (thresholds : ∀ i e, 1 ≤ cfg.thResume i e)
    (reached : OperatesTaken cfg IsOutput s) :
    (∀ e i, s.upstreamPaused e i = some true → ∃ q, IsOutput q ∧ s.queues e q ≠ []) ∧
    (∀ e pick t, s.dequeueAndTransmit cfg e pick = .ok t → (∀ q, IsOutput q → t.queues e q = []) →
      ∀ i, s.upstreamPaused e i = some true →
        t.out i = s.out i ++ [resumeTag ⟨cfg.mId, e⟩] ∧ t.upstreamPaused e i = some false) := by
  have T := operates_tables reached
  have M := operates_measured thresholds reached
  refine ⟨fun e i paused => (M.2 e i paused).2, fun e pick t call emptied i paused => ?_⟩
  exact transmit_resumes T M thresholds call emptied paused

/-- Two packets from device 1 wait in queue 1 of port 0, and the second one has made device 1
pause. -/
def rootOps : List (Op 2) :=
  [.accept 0 (dataPacket 0 1 [⟨1, 0⟩]), .accept 0 (dataPacket 1 1 [⟨1, 0⟩])]

theorem paused_backed_root : ∃ s, OperatesTaken (smallConfig 2) IsOutput s ∧
    s.upstreamPaused 0 1 = some true ∧ ∃ q, IsOutput q ∧ s.queues 0 q ≠ [] := by
  have ends : ∃ s, performs (smallConfig 2)
      (fun s op => ∀ idx p, op = .accept idx p → Taken (smallConfig 2) IsOutput s idx p)
        {} rootOps = some s ∧
      s.upstreamPaused 0 1 = some true := by
    refine ⟨_, Option.get_mem (?_ : Option.isSome _), ?_⟩ <;> decide
  obtain ⟨s, ends, paused⟩ := ends
  have reached := operates_performs .initial ends
  exact ⟨s, reached, paused, (paused_backed (by decide) reached).1 0 1 paused⟩

/-- The second packet makes its upstream pause, then the full port refuses it; after the first one
has left, nothing is left to resume the upstream. -/
def forgottenRun : List (Event 2) :=
  [.sendFrame 1 pfcFrame none,
   .sendToDev 0 (dataPacket 0 1 [⟨1, 0⟩]) none, .sendToDev 0 (dataPacket 1 1 [⟨1, 0⟩]) none,
   .dequeueAndTransmit 0 (some (1, 0))]

theorem paused_forgotten : ∃ s, run tightConfig {}
    forgottenRun = .ok s ∧ s.upstreamPaused 0 1 = some true ∧ ∀ q, IsOutput q →
    s.queues 0 q = [] := by
  obtain ⟨s, ends, facts⟩ := run_ends tightConfig
    forgottenRun (fun s => decide (s.upstreamPaused 0 1 = some true ∧
      ∀ q < queueNum, 1 ≤ q → s.queues 0 q = [])) (by decide)
  simp only [decide_eq_true_eq] at facts
  exact ⟨s, ends, facts.1, fun q output => facts.2 q output.2 output.1⟩

end Switch

end Pyrrha

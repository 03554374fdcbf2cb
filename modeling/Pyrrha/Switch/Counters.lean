import Mathlib.Algebra.BigOperators.Fin
import Mathlib.Algebra.Order.Ring.Nat
import Mathlib.Algebra.Order.BigOperators.Group.Finset
import Mathlib.Algebra.Order.BigOperators.Group.List
import Pyrrha.Lib.Wrapping
import Pyrrha.Switch.Waiting

/-!
The child counters of the entries: `iport_counter[i]` of the entry of `r` counts, modulo `2 ^ 32`,
the bytes of ingress `i` in the CIQs of `r`, as long as every packet that was counted in is also
stored.
-/

namespace Pyrrha
open Lib Relation

variable {n : ℕ} {cfg : Config n}

/-- The bytes in `l` that entered through `i`. -/
def bytesFrom (i : Fin n) (l : List (Packet n)) : ℕ :=
  ((l.filter fun p => p.inDev = i).map Packet.size).sum

theorem bytesFrom_append (i : Fin n) (l l' : List (Packet n)) :
    bytesFrom i (l ++ l') = bytesFrom i l + bytesFrom i l' := by
  simp [bytesFrom]

theorem bytesFrom_single (i : Fin n) (p : Packet n) :
    bytesFrom i [p] = if p.inDev = i then p.size else 0 := by
  by_cases here : p.inDev = i <;> simp [bytesFrom, here]

theorem bytesFrom_mem {l : List (Packet n)} {p : Packet n} (member : p ∈ l) :
    p.size ≤ bytesFrom p.inDev l := by
  refine List.le_sum_of_mem (List.mem_map_of_mem ?_)
  simp [member]

namespace Switch

/-- The bytes of ingress `i` in the CIQs of `r`, on all ports. -/
def ciqBytes (s : Switch n) (i : Fin n) (r : Spot) : ℕ := ∑ x, bytesFrom i (s.waiting x r)

/-- What `p` in queue `q` of `dev` adds to the bytes of `i` for the root `r`. -/
def share (s : Switch n) (dev : Fin n) (q : ℕ) (p : Packet n) (r : Spot) (i : Fin n) : ℕ :=
  if s.ciqRootMap dev q = some r ∧ p.inDev = i then p.size else 0

/-- The counters stand for the bytes in the CIQs and `x` more. -/
def Counted (x : Spot → Fin n → ℤ) (s : Switch n) : Prop :=
  ∀ r e i, s.getEntry r = some e → Tracks (2 ^ 32) (e.iportCounter i) (ciqBytes s i r + x r i)

/-! ### Bytes in the CIQs -/

theorem ciqBytes_congr {s t : Switch n} {i : Fin n} {r : Spot}
    (same : ∀ x, t.waiting x r = s.waiting x r) : ciqBytes t i r = ciqBytes s i r := by
  simp only [ciqBytes, same]

theorem ciqBytes_push {s t : Switch n} (T : Tables s) (T' : Tables t) {dev : Fin n} {q : ℕ}
    {p : Packet n}
    (map : t.ciqRootMap = s.ciqRootMap) (queues : t.queues = (s.pushQueue dev p q).queues)
    (i : Fin n) (r : Spot) : ciqBytes t i r = ciqBytes s i r + s.share dev q p r i := by
  have port : ∀ x, bytesFrom i (t.waiting x r) =
      bytesFrom i (s.waiting x r) + if x = dev then s.share dev q p r i else 0 := by
    intro x
    by_cases here : x = dev
    · subst here
      rw [waiting_push T T' map queues, if_pos rfl, share]
      by_cases mapped : s.ciqRootMap x q = some r
      · rw [if_pos mapped, bytesFrom_append, bytesFrom_single]
        simp [mapped]
      · simp [mapped]
    · have same : t.queues x = s.queues x := by
        rw [queues]
        exact update₂_row _ here _ _
      rw [if_neg here, waiting_congr T T' same fun c r _ => by rw [map], Nat.add_zero]
  simp only [ciqBytes, port, Finset.sum_add_distrib, Finset.sum_ite_eq', Finset.mem_univ, if_true]

theorem ciqBytes_pop {s : Switch n} (T : Tables s) {dev : Fin n} {q : ℕ} {p : Packet n}
    {rest : List (Packet n)} (head : s.queues dev q = p :: rest) (i : Fin n) (r : Spot) :
    ciqBytes s i r = ciqBytes (s.popQueue dev q 0 p) i r + s.share dev q p r i := by
  have port : ∀ x, bytesFrom i (s.waiting x r) =
      bytesFrom i ((s.popQueue dev q 0 p).waiting x r) + if x = dev then s.share dev q p r i
        else 0 := by
    intro x
    by_cases here : x = dev
    · subst here
      rw [waiting_pop T head, if_pos rfl, share]
      by_cases mapped : s.ciqRootMap x q = some r
      · rw [if_pos mapped, waiting_mapped T mapped, head, ← List.singleton_append, bytesFrom_append,
          bytesFrom_single, Nat.add_comm]
        simp [mapped]
      · simp [mapped]
    · have same : (s.popQueue dev q 0 p).queues x = s.queues x := update₂_row _ here _ _
      rw [if_neg here, waiting_congr T (head_tables T head) same fun _ _ _ => Iff.rfl, Nat.add_zero]
  simp only [ciqBytes, port, Finset.sum_add_distrib, Finset.sum_ite_eq', Finset.mem_univ, if_true]

/-! ### Updates that do not count -/

/-- Every entry of `t` has the counters of the entry of the same root in `s`. -/
def KeepsCounters (s t : Switch n) : Prop :=
  ∀ r e', t.getEntry r = some e' → ∃ e, s.getEntry r = some e ∧ e'.iportCounter = e.iportCounter

theorem keepsCounters_refl (s : Switch n) : KeepsCounters s s := fun _ e found => ⟨e, found, rfl⟩

theorem keepsCounters_setEntry {s : Switch n} {root : Spot} {e f : CAMEntry n}
    (found : s.getEntry root = some e) (same : f.iportCounter = e.iportCounter) :
    KeepsCounters s (s.setEntry root f) := by
  intro r e' found'
  rw [getEntry_setEntry] at found'
  split at found'
  · rename_i eq
    cases found'
    exact ⟨e, by rw [eq, found], same⟩
  · exact ⟨e', found', rfl⟩

theorem packetCtl_counters {s t : Switch n} (h : PacketCtl cfg s t) : KeepsCounters s t := by
  cases h with
  | rootPause => exact keepsCounters_refl s
  | rootResume e q =>
    unfold notifyDequeueFromOQ
    split <;> exact keepsCounters_refl s
  | childPause root e i p found => exact keepsCounters_setEntry (f := e.setCIQPause i) found rfl
  | childResume root e i p found => exact keepsCounters_setEntry (f := e.setCIQResume i) found rfl
  | dealloc root e p c found =>
    exact keepsCounters_setEntry (f := (e.setStatus p .initial).setCiq p none) found rfl
  | freeMerged root e p c found => exact keepsCounters_setEntry (f := e.setCiq p none) found rfl
  | erase root e found =>
    intro r e' found'
    simp only [getEntry, eraseEntry, Function.update_apply] at found'
    split at found'
    · cases found'
    · exact ⟨e', found', rfl⟩

theorem counted_keeps {s t : Switch n} {x : Spot → Fin n → ℤ} (C : Counted x s)
    (K : KeepsCounters s t) (waiting : ∀ p r, t.waiting p r = s.waiting p r) : Counted x t := by
  intro r e' i found'
  obtain ⟨e, found, same⟩ := K r e' found'
  rw [same, ciqBytes_congr fun p => waiting p r]
  exact C r e i found

theorem packetCtls_counted {s t : Switch n} {x : Spot → Fin n → ℤ} (T : Tables s) (C : Counted x s)
    (h : PacketCtls cfg s t) : Counted x t := by
  refine (packetCtls_preserve (I := fun u => Tables u ∧ Counted x u)
    (fun _ _ before last => ?_) ⟨T, C⟩ h).2
  exact ⟨packetCtl_tables before.1 last,
    counted_keeps before.2 (packetCtl_counters last) (packetCtl_waiting before.1 last)⟩

theorem retireOldRoot_counters {s : Switch n} {tag : CITag} {e old : CAMEntry n} (p : Fin n)
    (found : s.getEntry tag.root = some e) (foundOld : s.getEntry tag.old = some old) :
    KeepsCounters s (s.retireOldRoot cfg tag old p) := by
  rw [retireOldRoot_eq p found foundOld]
  have entries : ∀ r, (s.unpauseOld p old).getEntry r = s.getEntry r := by
    intro r
    unfold unpauseOld
    split <;> rfl
  have merged : KeepsCounters s
      ((s.unpauseOld p old).mergeUpstreams tag.root e tag.old (passesMerge cfg old)) := by
    intro r e' found'
    refine keepsCounters_setEntry (f := e.setCIQResumes (passesMerge cfg old)) found rfl r e' ?_
    rw [← found', getEntry_setEntry, mergeUpstreams, getEntry_setEntry]
    split
    · rfl
    · exact (entries r).symm
  intro r e' found'
  rw [getEntry_setEntry] at found'
  split at found'
  · rename_i eq
    cases found'
    exact ⟨old, by rw [eq, foundOld], rfl⟩
  · exact merged r e' found'

theorem signalCtl_counted {s t : Switch n} {tag : CITag} {p : Fin n} {x : Spot → Fin n → ℤ}
    (T : Tables s) (C : Counted x s) (zero : ∀ r i, s.getEntry r = none → x r i = 0)
    (h : SignalCtl cfg tag p s t) :
    Counted x t := by
  have waiting := signalCtl_waiting T h
  cases h with
  | create type absent pos =>
    intro r e' i found'
    rw [getEntry_setEntry] at found'
    split at found'
    · rename_i eq
      cases found'
      -- nothing waits for a root without an entry
      have none : ciqBytes s i r = 0 := by
        rw [ciqBytes, Finset.sum_eq_zero fun y _ => ?_]
        rw [waiting_absent fun e found => by rw [eq, absent] at found; cases found]
        rfl
      rw [ciqBytes_congr fun y => waiting y r, none, zero r i (by rw [eq, absent])]
      exact tracks_zero (by decide)
    · rw [ciqBytes_congr fun y => waiting y r]
      exact C r e' i found'
  | register e st b found =>
    refine counted_keeps C (fun r e' found' => ?_) waiting
    have set := keepsCounters_setEntry (f := (e.setCiq p (some (s.nQueue p))).setStatus p st) found rfl
    refine set r e' ?_
    rw [← found']
    simp only [setPaused, registerRoot, updateEgressAdmission, setEgress, setCiqRoot,
      setEntry, getEntry, registerCIQ, Function.update_apply]
    split <;> rfl
  | setStatus e st b found =>
    exact counted_keeps C (keepsCounters_setEntry (f := e.setStatus p st) found rfl) waiting
  | startMerge e found =>
    exact counted_keeps C (keepsCounters_setEntry (f := e.setCIQResumes _) found rfl) waiting
  | retire e old found foundOld =>
    exact counted_keeps C (retireOldRoot_counters p found foundOld) waiting
  | childDealloc e found =>
    exact counted_keeps C (keepsCounters_setEntry (f := e.setCIQDealloc p) found rfl) waiting
  | rootDealloc => exact counted_keeps C (keepsCounters_refl s) waiting

/-! ### Counting -/

theorem share_output {s : Switch n} (T : Tables s) {q : ℕ} (oq : q < queueNum) (dev : Fin n)
    (p : Packet n) : s.share dev q p = fun _ _ => 0 := by
  funext r i
  refine if_neg fun h => ?_
  have := (T.range dev q r h.1).1
  omega

theorem counted_setCounter {s : Switch n} {x y : Spot → Fin n → ℤ} (C : Counted x s) {root : Spot}
    {e : CAMEntry n} (found : s.getEntry root = some e) (i : Fin n) (v : ℕ)
    (here : Tracks (2 ^ 32) v (ciqBytes s i root + y root i))
    (others : ∀ r j, ¬(r = root ∧ j = i) → y r j = x r j) :
    Counted y (s.setEntry root (e.setCounter i v)) := by
  intro r e' j found'
  have waiting : ciqBytes (s.setEntry root (e.setCounter i v)) j r = ciqBytes s j r := by
    refine ciqBytes_congr fun p => ?_
    unfold waiting
    rw [getEntry_setEntry]
    by_cases eq : r = root
    · simp only [eq, if_true, found]
      rfl
    · rw [if_neg eq]
      rfl
  rw [waiting]
  rw [getEntry_setEntry] at found'
  by_cases eq : r = root
  · rw [if_pos eq] at found'
    cases found'
    by_cases at_i : j = i
    · rw [eq, at_i]
      simpa [CAMEntry.setCounter] using here
    · rw [others r j fun h => at_i h.2]
      simpa [CAMEntry.setCounter, at_i] using C r e j (by rw [eq, found])
  · rw [if_neg eq] at found'
    rw [others r j fun h => eq h.1]
    exact C r e' j found'

theorem notifyEnqueue_counted {s t : Switch n} {x : Spot → Fin n → ℤ} (T : Tables s)
    (C : Counted x s)
    {idx : Fin n} {q : ℕ} {p : Packet n} (h : s.notifyEnqueue cfg idx q p = .ok t) :
    Counted (fun r i => x r i + s.share idx q p r i) t := by
  rcases notifyEnqueue_ctl h with ⟨oq, steps⟩ | ⟨_, root, e, mapped, found, steps⟩
  · simp only [share_output T oq, Nat.cast_zero, add_zero]
    exact packetCtls_counted T C steps
  · refine packetCtls_counted (count_tables T found _ _)
      (counted_setCounter C found _ _ ?_ ?_) steps
    · have counted := tracks_add (C root e p.inDev found) p.size
      simpa [share, mapped, add_assoc, add32] using counted
    · intro r j other
      have apart : ¬(s.ciqRootMap idx q = some r ∧ p.inDev = j) := by
        rw [mapped]
        exact fun h => other ⟨(Option.some.inj h.1).symm, h.2.symm⟩
      simp [share, apart]

theorem notifyDequeue_counted {s t : Switch n} {x : Spot → Fin n → ℤ} (T : Tables s)
    (C : Counted x s)
    {idx : Fin n} {q : ℕ} {p : Packet n} (h : s.notifyDequeue cfg idx q p = .ok t) :
    Counted (fun r i => x r i - s.share idx q p r i) t := by
  rcases notifyDequeue_ctl h with ⟨oq, steps⟩ | ⟨_, root, e, mapped, found, steps⟩
  · simp only [share_output T oq, Nat.cast_zero, sub_zero]
    exact packetCtls_counted T C steps
  · refine packetCtls_counted (count_tables T found _ _)
      (counted_setCounter C found _ _ ?_ ?_) steps
    · have small : p.size ≤ 2 ^ 32 := by
        have := p.size_lt
        omega
      have counted := tracks_sub (C root e p.inDev found) small
      simpa [share, mapped, add_sub_assoc, sub32] using counted
    · intro r j other
      have apart : ¬(s.ciqRootMap idx q = some r ∧ p.inDev = j) := by
        rw [mapped]
        exact fun h => other ⟨(Option.some.inj h.1).symm, h.2.symm⟩
      simp [share, apart]

theorem push_counted {s t : Switch n} {x : Spot → Fin n → ℤ} (T : Tables s) (T' : Tables t)
    (C : Counted x s)
    {dev : Fin n} {q : ℕ} {p : Packet n} (entries : t.congestionEntries = s.congestionEntries)
    (map : t.ciqRootMap = s.ciqRootMap) (queues : t.queues = (s.pushQueue dev p q).queues) :
    Counted (fun r i => x r i - s.share dev q p r i) t := by
  intro r e i found
  rw [getEntry, entries] at found
  have bytes := ciqBytes_push T T' map queues i r
  have counted := C r e i found
  rw [show (ciqBytes t i r : ℤ) + (x r i - s.share dev q p r i) = ciqBytes s i r + x r i by omega]
  exact counted

theorem pop_counted {s : Switch n} {x : Spot → Fin n → ℤ} (T : Tables s) (C : Counted x s)
    {dev : Fin n}
    {q : ℕ} {p : Packet n} {rest : List (Packet n)} (head : s.queues dev q = p :: rest) :
    Counted (fun r i => x r i + s.share dev q p r i) (s.popQueue dev q 0 p) := by
  intro r e i found
  have bytes := ciqBytes_pop T head i r
  have counted := C r e i found
  rw [show (ciqBytes (s.popQueue dev q 0 p) i r : ℤ) + (x r i + s.share dev q p r i) =
    ciqBytes s i r + x r i by omega]
  exact counted

/-! ### Operations -/

/-- The counters stand for the bytes in the CIQs. -/
abbrev Exact (s : Switch n) : Prop := Counted (fun _ _ => 0) s

theorem share_congr {s t : Switch n} (map : t.ciqRootMap = s.ciqRootMap) (dev : Fin n) (q : ℕ)
    (p : Packet n) : t.share dev q p = s.share dev q p := by
  funext r i
  simp only [share, map]

theorem counted_same {s t : Switch n} {x : Spot → Fin n → ℤ} (C : Counted x s)
    (entries : t.congestionEntries = s.congestionEntries) (waiting : ∀ p r, t.waiting p r =
      s.waiting p r) :
    Counted x t := by
  intro r e i found
  rw [getEntry, entries] at found
  rw [ciqBytes_congr fun p => waiting p r]
  exact C r e i found

theorem accept_exact {s t : Switch n} (T : Tables s) (C : Exact s) {idx : Fin n} {p : Packet n}
    (taken : Taken cfg (queueNum ≤ ·) s idx p) (h : s.acceptPacket cfg idx p = .ok t) :
    Exact t := by
  rcases acceptPacket_cases h with rfl | ⟨q, u, matched, admitted, _, entered, rfl⟩
  · exact C
  have T' : Tables (s.updateEgressAdmission idx q p.size) := egress_tables T idx q _
  have charged : Exact (s.updateEgressAdmission idx q p.size) := counted_same C rfl fun _ _ => rfl
  have U := notifyEnqueue_tables T' entered
  have counted := notifyEnqueue_counted T' charged entered
  have total : u.bytesInQueueTotal = s.bytesInQueueTotal :=
    (notifyEnqueue_buffers entered).bytesInQueueTotal
  obtain ⟨map, place⟩ := notifyEnqueue_map entered
  have shares := share_congr map idx q p
  by_cases fits : s.bytesInQueueTotal idx + p.size < cfg.maxBytes
  · have pushed : u.switchSend cfg idx q p = u.pushQueue idx p q := by
      simp [switchSend, doEnqueue, total, fits]
    rw [pushed]
    have P := push_tables (p := p) U (by rw [map]; exact place)
    have stored := push_counted U P counted rfl rfl rfl
    rw [shares] at stored
    simpa [Exact] using stored
  · -- only a packet for an output queue can be lost
    have oq : q < queueNum := by
      by_contra ciq
      exact fits (taken q matched admitted (by omega))
    have lost : u.switchSend cfg idx q p = u := by simp [switchSend, doEnqueue, total, fits]
    rw [lost]
    simpa [share_output T' oq] using counted

theorem transmit_exact {s t : Switch n} (T : Tables s) (C : Exact s) {dev : Fin n}
    {pick : Option (ℕ × ℕ)} (h : s.dequeueAndTransmit cfg dev pick = .ok t) : Exact t := by
  rcases dequeueAndTransmit_cases h with rfl | ⟨q, k, p, oq, _, head, left⟩
  · exact C
  have T' := sent_tables T head
  have sent : Exact ((s.popQueue dev q k p).transmitStart dev q p) :=
    counted_same C rfl (waiting_output T oq k p)
  rcases switchNotifyDequeue_cases left with ⟨_, rfl⟩ | ⟨_, _, u, removed, notified⟩
  · exact sent
  · obtain ⟨_, rfl⟩ := removeFromEgressAdmission_ok removed
    have U := egress_tables T' dev q
      (((s.popQueue dev q k p).transmitStart dev q p).egressBytes dev q - p.size)
    have counted := notifyDequeue_counted U (counted_same sent rfl fun _ _ => rfl) notified
    simpa [share_output U oq] using counted

theorem move_exact {s t : Switch n} (T : Tables s) (C : Exact s) {dev : Fin n} {level q : ℕ}
    {b b' : Bool} (h : hierMove cfg dev level (s, b) q = .ok (t, b')) : Exact t := by
  rcases hierMove_cases h with rfl | ⟨p, rest, nextQ, u, v, w, head, _, left, removed, entered, rfl⟩
  · exact C
  have T' := head_tables T head
  have out := notifyDequeue_counted T' (pop_counted T C head) left
  have balanced : Exact u := by
    have same : (s.popQueue dev q 0 p).share dev q p = s.share dev q p := share_congr rfl dev q p
    rw [same] at out
    simpa [Exact] using out
  have U := notifyDequeue_tables T' left
  have P := moved_tables T' left removed entered
  obtain ⟨_, rfl⟩ := removeFromEgressAdmission_ok removed
  have pushed : Counted (fun r i => 0 - (u.share dev nextQ p r i : ℤ))
      ((u.setEgress dev q (u.egressBytes dev q - p.size)).pushQueue dev p nextQ) :=
    push_counted U P balanced rfl rfl rfl
  have moved := notifyEnqueue_counted P pushed entered
  have same :
    ((u.setEgress dev q (u.egressBytes dev q - p.size)).pushQueue dev p nextQ).share dev nextQ p =
      u.share dev nextQ p := share_congr rfl dev nextQ p
  rw [same] at moved
  have counted : Exact w := by simpa [Exact] using moved
  exact counted_same counted rfl fun _ _ => rfl

theorem signals_exact {s t : Switch n} {tag : CITag} {p : Fin n} (T : Tables s) (C : Exact s)
    (h : SignalCtls cfg tag p s t) : Exact t :=
  (signalCtls_preserve (I := fun u => Tables u ∧ Exact u)
    (fun _ _ before last => ⟨packetCtl_tables before.1 last,
      packetCtls_counted before.1 before.2 (.single last)⟩)
    (fun _ _ before last => ⟨signalCtl_tables before.1 last,
      signalCtl_counted before.1 before.2 (fun _ _ _ => rfl) last⟩) ⟨T, C⟩ h).2

theorem frame_exact {s : Switch n} (T : Tables s) (C : Exact s) (dev : Fin n) (p : Packet n) :
    Exact (s.switchSend cfg dev 0 p) := by
  rcases switchSend_cases cfg s dev 0 p with same | pushed
  · rw [same]
    exact C
  · have P := frame_switchSend cfg T dev p
    rw [pushed] at P ⊢
    have stored := push_counted T P C rfl rfl rfl
    simpa [Exact, share_output T (show 0 < queueNum by decide)] using stored

theorem operated_exact {s t : Switch n} {op : Op n} (T : Tables s) (C : Exact s)
    (taken : ∀ idx p, op = .accept idx p → Taken cfg (queueNum ≤ ·) s idx p)
    (h : Operated cfg s op t) : Exact t := by
  cases h with
  | accept _ call => exact accept_exact T C (taken _ _ rfl) call
  | transmit call => exact transmit_exact T C call
  | move _ call => exact move_exact T C call
  | signal call =>
    obtain ⟨u, pick', steps, sent⟩ := receiveCI_ctl call
    exact transmit_exact (signalCtls_tables T steps) (signals_exact T C steps) sent
  | frame => exact frame_exact T C _ _

theorem operates_exact {s : Switch n} (h : OperatesTaken cfg (queueNum ≤ ·) s) : Exact s := by
  induction h with
  | initial => exact fun r e i found => by cases found
  | step before taken call ih => exact operated_exact (operates_tables before) ih taken call

/-! ### Erased entries -/

/-- The bytes an operation takes out of the CIQs of `r`: those of the packet a move dequeues. -/
def takenOut (s : Switch n) (op : Op n) (r : Spot) (i : Fin n) : ℕ :=
  match op with
  | .move dev _ q =>
    match s.queues dev q with
    | [] => 0
    | p :: _ => s.share dev q p r i
  | _ => 0

theorem operated_bytes {s t : Switch n} {op : Op n} (T : Tables s)
    (h : Operated cfg s op t) (i : Fin n)
    (r : Spot) : ciqBytes s i r ≤ ciqBytes t i r + s.takenOut op r i := by
  have T' := operated_tables T h
  cases h with
  | accept data call =>
    obtain ⟨map, _, ⟨_, queues⟩ | ⟨_, q, _, queues⟩⟩ := acceptPacket_accepts data call
    · rw [ciqBytes_congr fun x => waiting_congr T T' (by rw [queues]) (fun c r _ => by rw [map]) r]
      exact Nat.le_add_right _ _
    · have := ciqBytes_push T T' map queues i r
      omega
  | transmit call =>
    rw [ciqBytes_congr fun x => transmit_waiting T call x r]
    exact Nat.le_add_right _ _
  | @move _ dev level q b b' visited call =>
    rcases hierMove_cases call with rfl | ⟨p, rest, nextQ, u, v, w, head, _, left, removed,
      entered, rfl⟩
    · exact Nat.le_add_right _ _
    have U := notifyDequeue_tables (head_tables T head) left
    have W := notifyEnqueue_tables (moved_tables (head_tables T head) left removed entered) entered
    obtain ⟨map, _⟩ := notifyEnqueue_map entered
    have queues := (notifyEnqueue_buffers entered).queues
    obtain ⟨_, rfl⟩ := removeFromEgressAdmission_ok removed
    have out := ciqBytes_pop T head i r
    have shrunk : ciqBytes u i r = ciqBytes _ i r := ciqBytes_congr fun x =>
      waiting_shrinks (head_tables T head) U (notifyDequeue_map left)
        (by rw [(notifyDequeue_buffers left).queues]) r
    have moved : ciqBytes w i r = _ := ciqBytes_push U W map queues i r
    have after : ciqBytes (w.updateEgressAdmission dev nextQ p.size) i r = ciqBytes w i r := rfl
    simp only [takenOut, head]
    omega
  | signal call =>
    obtain ⟨u, pick', steps, sent⟩ := receiveCI_ctl call
    have U := signalCtls_tables T steps
    rw [ciqBytes_congr fun x => (transmit_waiting U sent x r).trans
      (signalCtls_waiting T steps x r)]
    exact Nat.le_add_right _ _
  | frame built =>
    rename_i dev p
    rcases switchSend_cases cfg s dev 0 p with same | pushed
    · rw [same]
      exact Nat.le_add_right _ _
    · rw [pushed] at T' ⊢
      have := ciqBytes_push T T' rfl rfl i r
      omega

theorem operated_erases {s t : Switch n} {op : Op n} (T : Tables s) (C : Exact s)
    (h : Operated cfg s op t)
    {r : Spot} {e : CAMEntry n} (found : s.getEntry r = some e) (erased : t.getEntry r = none)
    (i : Fin n) : sub32 (e.iportCounter i) (s.takenOut op r i) = 0 := by
  have none : ciqBytes t i r = 0 := by
    rw [ciqBytes, Finset.sum_eq_zero fun x _ => ?_]
    rw [waiting_absent fun e found => by rw [erased] at found; cases found]
    rfl
  have bytes := operated_bytes T h i r
  have fewer : s.takenOut op r i ≤ ciqBytes s i r := by
    unfold takenOut
    split
    · rename_i dev level q
      split
      · exact Nat.zero_le _
      · rename_i p rest head
        have := ciqBytes_pop T head i r
        omega
    · exact Nat.zero_le _
  have small : s.takenOut op r i < 2 ^ 32 := by
    unfold takenOut
    split
    · split
      · decide
      · rename_i p rest head
        have := p.size_lt
        unfold share
        split
        · omega
        · decide
    · decide
  have counted : Tracks (2 ^ 32) (e.iportCounter i) (ciqBytes s i r : ℤ) := by
    simpa using C r e i found
  have exact := (tracks_exact counted).mpr (by omega)
  unfold sub32
  omega

/-- Exact child counters, on runs in which no packet admitted to a CIQ is lost: a counter is the
number of bytes of its ingress in the CIQs of its root unless there are `2 ^ 32` or more, then no
subtraction of a waiting packet wraps, and an entry is erased only once its counters are zero. -/
theorem counters_exact {s : Switch n} (reached : OperatesTaken cfg (queueNum ≤ ·) s) :
    (∀ r e i, s.getEntry r = some e →
      (e.iportCounter i = ciqBytes s i r ↔ ciqBytes s i r < 2 ^ 32)) ∧
    (∀ r e x p, s.getEntry r = some e → p ∈ s.waiting x r → ciqBytes s p.inDev r < 2 ^ 32 →
      p.size ≤ e.iportCounter p.inDev) ∧
    (∀ op t r e i, Operated cfg s op t → s.getEntry r = some e → t.getEntry r = none →
      sub32 (e.iportCounter i) (s.takenOut op r i) = 0) := by
  have C := operates_exact reached
  have exact : ∀ r e i, s.getEntry r = some e →
      (e.iportCounter i = ciqBytes s i r ↔ ciqBytes s i r < 2 ^ 32) := by
    intro r e i found
    have counted : Tracks (2 ^ 32) (e.iportCounter i) (ciqBytes s i r : ℤ) := by
      simpa using C r e i found
    exact tracks_exact counted
  refine ⟨exact, ?_, fun op t r e i call found erased =>
    operated_erases (operates_tables reached) C call found erased i⟩
  intro r e x p found member small
  rw [(exact r e p.inDev found).mpr small]
  have here : bytesFrom p.inDev (s.waiting x r) ≤ ciqBytes s p.inDev r :=
    Finset.single_le_sum (f := fun y => bytesFrom p.inDev (s.waiting y r))
      (fun _ _ => Nat.zero_le _) (Finset.mem_univ x)
  exact (bytesFrom_mem member).trans here

/-- Port 0 is told to pause for the root `⟨7, 0⟩`, and a packet of device 1 waits for it. -/
def countedOps : List (Op 2) :=
  [.signal ⟨.pause, ⟨7, 0⟩, 1, ⟨0, 0⟩⟩ 0 none, .accept 0 (dataPacket 0 1 [⟨1, 0⟩, ⟨7, 0⟩])]

theorem counters_exact_paused : ∃ s, OperatesTaken (smallConfig 2) (queueNum ≤ ·) s ∧
    ∃ e, s.getEntry ⟨7, 0⟩ = some e ∧ e.iportCounter 1 = ciqBytes s 1 ⟨7, 0⟩ ∧
    ciqBytes s 1 ⟨7, 0⟩ = 64 := by
  have ends : ∃ s, performs (smallConfig 2)
      (fun s op => ∀ idx p, op = .accept idx p → Taken (smallConfig 2) (queueNum ≤ ·) s idx p)
        {} countedOps = some s ∧
      ∃ e ∈ s.getEntry ⟨7, 0⟩, ciqBytes s 1 ⟨7, 0⟩ = 64 := by
    refine ⟨_, Option.get_mem (?_ : Option.isSome _), ?_⟩ <;> decide
  obtain ⟨s, ends, e, found, bytes⟩ := ends
  have reached := operates_performs .initial ends
  have exact := (counters_exact reached).1 ⟨7, 0⟩ e 1 found
  exact ⟨s, reached, e, found, exact.mpr (by rw [bytes]; decide), bytes⟩

/-- The second packet for the CIQ of the root `⟨7, 0⟩` is counted into its entry, then refused by
the full port, while a frame on the other port keeps the assert of `DoStatistics` quiet. -/
def refusedRun : List (Event 2) :=
  [.receiveCI ⟨.pause, ⟨7, 0⟩, 1, ⟨0, 0⟩⟩ 0 none,
   .sendFrame 1 pfcFrame none,
   .sendToDev 0 (dataPacket 0 1 [⟨1, 0⟩, ⟨7, 0⟩]) none,
   .sendToDev 0 (dataPacket 1 1 [⟨1, 0⟩, ⟨7, 0⟩]) none]

theorem counters_refused : ∃ s, run tightConfig {} refusedRun = .ok s ∧
    ∃ e, s.getEntry ⟨7, 0⟩ = some e ∧
    e.iportCounter 1 = 128 ∧ ciqBytes s 1 ⟨7, 0⟩ = 64 := by
  obtain ⟨s, ends, facts⟩ := run_ends tightConfig refusedRun
    (fun s => decide (∃ e ∈ s.getEntry ⟨7, 0⟩, e.iportCounter 1 = 128 ∧ ciqBytes s 1 ⟨7, 0⟩ = 64))
      (by decide)
  exact ⟨s, ends, by simpa using facts⟩

end Switch

end Pyrrha

import Pyrrha.Switch.RootPause

/-!
Whether a congestion root notices that a queue has grown beyond the pause threshold of an upstream.
`SendToDev` charges a packet before it looks at the length of the queue, `DoHierQRR` after.
-/

namespace Pyrrha
open Lib

variable {n : ℕ} {cfg : Config n}

namespace Switch

/-- From `s` to `t` the root on `e` decides on a pause of `i` by the length its queue `q` now has,
and a new pause is the last signal on its way to `i`. -/
structure Decides (cfg : Config n) (s t : Switch n) (i e : Fin n) (q : ℕ) : Prop where
  paused : t.upstreamPaused e i = some true ↔
    s.upstreamPaused e i = some true ∨ cfg.thCongestion i e < t.egressBytes e q
  sent : t.upstreamPaused e i = some true →
    s.upstreamPaused e i = some true ∨ (t.out i).getLast? = some (pauseTag ⟨cfg.mId, e⟩ 1)

/-! ### The check -/

theorem notifyEnqueueIntoOQ_decides {s : Switch n} {i e : Fin n}
    (down : cfg.upPort e = false) (q : ℕ) :
    Decides cfg s (s.notifyEnqueueIntoOQ cfg i e q) i e q := by
  have governed : ¬(cfg.onlyDownPortEnable && cfg.upPort e) = true := by simp [down]
  unfold notifyEnqueueIntoOQ
  rw [if_neg governed]
  split
  · rename_i check
    simp only [checkRootPause, Bool.and_eq_true, decide_eq_true_eq] at check
    have now : ((s.sendCIPacket i (pauseTag ⟨cfg.mId, e⟩ 1)).setRootPause i e).upstreamPaused e i =
        some true :=
      update₂_same ..
    refine ⟨⟨fun _ => .inr check.1.1, fun _ => now⟩, fun _ => .inr ?_⟩
    simp only [setRootPause, setUpstreamPaused, sendCIPacket, Function.update_self,
      List.getLast?_append, List.getLast?_singleton, Option.some_or]
  · rename_i check
    refine ⟨⟨.inl, ?_⟩, .inl⟩
    rintro (before | longer)
    · exact before
    · by_contra other
      exact check (by simp [checkRootPause, longer, down, other])

/-- A decision about another length is one about this length if both lengths are on one side of the
threshold. -/
theorem decides_iff {s t u : Switch n} {i e : Fin n} {q q' : ℕ} (decided : Decides cfg s t i e q)
    (upstream : u.upstreamPaused = t.upstreamPaused) (out : u.out = t.out) :
    Decides cfg s u i e q' ↔ (s.upstreamPaused e i = some true ∨
        (cfg.thCongestion i e < t.egressBytes e q ↔
          cfg.thCongestion i e < u.egressBytes e q')) := by
  have sent := decided.sent
  constructor
  · intro right
    by_cases before : s.upstreamPaused e i = some true
    · exact .inl before
    · have one := decided.paused
      have other := right.paused
      rw [upstream] at other
      simp only [before, false_or] at one other
      exact .inr (one.symm.trans other)
  · intro same
    refine ⟨?_, fun paused => ?_⟩
    · rw [upstream, decided.paused]
      rcases same with before | sides
      · simp [before]
      · rw [sides]
    · rw [upstream] at paused
      rw [out]
      exact sent paused

/-! ### The two ways into an output queue -/

theorem notifyEnqueue_output {s t : Switch n} {idx : Fin n} {q : ℕ} {p : Packet n}
    (output : IsOutput q)
    (call : s.notifyEnqueue cfg idx q p = .ok t) : t = s.notifyEnqueueIntoOQ cfg p.inDev idx q := by
  have nonzero : q ≠ 0 := fun zero => by have := output.1; omega
  rw [notifyEnqueue, if_neg nonzero, if_pos output.2] at call
  exact (Except.ok.inj call).symm

theorem switchSend_records (s : Switch n) (dev : Fin n) (q : ℕ) (p : Packet n) :
    (s.switchSend cfg dev q p).upstreamPaused = s.upstreamPaused ∧
    (s.switchSend cfg dev q p).out = s.out ∧
      (s.switchSend cfg dev q p).egressBytes = s.egressBytes := by
  rcases switchSend_cases cfg s dev q p with same | pushed
  · rw [same]
    exact ⟨rfl, rfl, rfl⟩
  · rw [pushed]
    exact ⟨rfl, rfl, rfl⟩

theorem accept_decides {s t : Switch n} {e : Fin n} {p : Packet n} {q : ℕ}
    (down : cfg.upPort e = false) (output : IsOutput q) (matched : s.matchQ cfg e p = .ok q)
    (admitted : s.admits cfg e q p = true)
    (call : s.acceptPacket cfg e p = .ok t) : Decides cfg s t p.inDev e q := by
  obtain ⟨u, notified, rfl⟩ := acceptPacket_enters matched admitted call
  obtain rfl := notifyEnqueue_output output notified
  have charged : Decides cfg (s.updateEgressAdmission e q p.size)
      ((s.updateEgressAdmission e q p.size).notifyEnqueueIntoOQ cfg p.inDev e q) p.inDev e q :=
    notifyEnqueueIntoOQ_decides down q
  have decided : Decides cfg s
      ((s.updateEgressAdmission e q p.size).notifyEnqueueIntoOQ cfg p.inDev e q) p.inDev e q :=
    ⟨charged.paused, charged.sent⟩
  obtain ⟨upstream, out, egress⟩ := @switchSend_records n cfg
    ((s.updateEgressAdmission e q p.size).notifyEnqueueIntoOQ cfg p.inDev e q) e q p
  refine (decides_iff decided upstream out).mpr (.inr ?_)
  rw [egress]

/-- What a move into an output queue leaves of the records: the check looks at the length without
the packet. -/
theorem move_decides {s t : Switch n} {e : Fin n} {level q nextQ : ℕ} {p : Packet n}
    {rest : List (Packet n)}
    {b b' : Bool} (down : cfg.upPort e = false) (ciq : queueNum ≤ q) (output : IsOutput nextQ)
    (head : s.queues e q = p :: rest) (check : s.checkDequeueHierQ cfg e level q p =
      .ok (some (some nextQ)))
    (call : hierMove cfg e level (s, b) q = .ok (t, b')) :
    t.egressBytes e nextQ = add32 (s.egressBytes e nextQ) p.size ∧
    (Decides cfg s t p.inDev e nextQ ↔ (s.upstreamPaused e p.inDev = some true ∨
        (cfg.thCongestion p.inDev e < s.egressBytes e nextQ ↔
        cfg.thCongestion p.inDev e < add32 (s.egressBytes e nextQ) p.size))) := by
  obtain ⟨u, v, w, left, removed, entered, rfl⟩ := hierMove_enters head check call
  obtain ⟨-, rfl⟩ := removeFromEgressAdmission_ok removed
  obtain rfl := notifyEnqueue_output output entered
  have other : nextQ ≠ q := fun same => by have := output.2; omega
  have kept : u.upstreamPaused = s.upstreamPaused := by
    have same := notifyDequeue_ciq_upstream ciq left
    exact same
  have length : u.egressBytes = s.egressBytes := (notifyDequeue_buffers left).egressBytes
  generalize before : (u.setEgress e q (u.egressBytes e q - p.size)).pushQueue e p nextQ = x
  have upstream : x.upstreamPaused = s.upstreamPaused := by rw [← before]; exact kept
  have short : x.egressBytes e nextQ = s.egressBytes e nextQ := by
    rw [← before, ← length]
    exact update₂_of_ne _ _ fun same => other same.2
  have decided : Decides cfg x (x.notifyEnqueueIntoOQ cfg p.inDev e nextQ) p.inDev e nextQ :=
    notifyEnqueueIntoOQ_decides down nextQ
  have unchanged : (x.notifyEnqueueIntoOQ cfg p.inDev e nextQ).egressBytes = x.egressBytes :=
    (packetCtls_buffers (notifyEnqueueIntoOQ_ctl x p.inDev e nextQ)).egressBytes
  have after : ((x.notifyEnqueueIntoOQ cfg p.inDev e nextQ).updateEgressAdmission e nextQ
    p.size).egressBytes e nextQ = add32 (s.egressBytes e nextQ) p.size := by
    rw [← short, ← unchanged]
    exact update₂_same ..
  refine ⟨after, ?_⟩
  have moved : Decides cfg s (x.notifyEnqueueIntoOQ cfg p.inDev e nextQ) p.inDev e nextQ := by
    refine ⟨?_, ?_⟩
    · rw [← upstream]
      exact decided.paused
    · rw [← upstream]
      exact decided.sent
  have kept : ∀ v : Switch n, (v.updateEgressAdmission e nextQ p.size).upstreamPaused =
    v.upstreamPaused ∧ (v.updateEgressAdmission e nextQ p.size).out = v.out := fun _ => ⟨rfl, rfl⟩
  refine (decides_iff moved (kept _).1 (kept _).2).trans ?_
  rw [after, unchanged, short]

theorem transmit_keeps {s t : Switch n} {e i : Fin n} {pick : Option (ℕ × ℕ)}
    (call : s.dequeueAndTransmit cfg e pick = .ok t) (paused : s.upstreamPaused e i = some true) :
    t.upstreamPaused e i = some true ∨ ∃ q, IsOutput q ∧ t.checkRootResume cfg i e q = true := by
  rcases dequeueAndTransmit_cases call with rfl | ⟨q, k, p, oq, -, -, left⟩
  · exact .inl paused
  rcases switchNotifyDequeue_cases left with ⟨-, rfl⟩ | ⟨-, -, u, removed, notified⟩
  · exact .inl paused
  obtain ⟨-, rfl⟩ := removeFromEgressAdmission_ok removed
  by_cases zero : q = 0
  · rw [notifyDequeue, if_pos zero] at notified
    cases notified
    exact .inl paused
  · rw [notifyDequeue, if_neg zero, if_pos oq] at notified
    cases notified
    unfold notifyDequeueFromOQ
    split
    · exact .inl paused
    · dsimp only
      split
      · rename_i resumed
        simp only [resumesUpstream, Bool.and_eq_true] at resumed
        exact .inr ⟨q, ⟨Nat.one_le_iff_ne_zero.mpr zero, oq⟩, resumed.2.2⟩
      · exact .inl paused

/-! ### Runs -/

/-- In every state of every run: a packet that `SendToDev` puts into an output queue of a down port
is noticed, and one that a round moves there is noticed as well if and only if the packet does not
itself carry the queue over the threshold of an upstream that is not paused. Later a transmission
takes a pause back by `CheckRootResume` alone. -/
theorem crossing_detected {s : Switch n} (reached : Operates cfg (fun _ _ => True) s) {e : Fin n}
    (down : cfg.upPort e = false) :
    (∀ p t q, IsOutput q → s.matchQ cfg e p = .ok q → s.admits cfg e q p = true →
      s.acceptPacket cfg e p = .ok t → Decides cfg s t p.inDev e q) ∧
    (∀ level q p rest nextQ b t b', q ∈ s.priorities e level → s.queues e q = p :: rest →
      IsOutput nextQ → s.checkDequeueHierQ cfg e level q p = .ok (some (some nextQ)) →
      hierMove cfg e level (s, b) q = .ok (t, b') → (Decides cfg s t p.inDev e nextQ ↔
        (s.upstreamPaused e p.inDev = some true ∨
          (cfg.thCongestion p.inDev e < s.egressBytes e nextQ ↔
          cfg.thCongestion p.inDev e < add32 (s.egressBytes e nextQ) p.size)))) ∧
    ∀ i pick t, s.dequeueAndTransmit cfg e pick = .ok t → s.upstreamPaused e i = some true →
      t.upstreamPaused e i = some true ∨ ∃ q, IsOutput q ∧ t.checkRootResume cfg i e q = true := by
  have tables := operates_tables reached
  refine ⟨fun p t q output matched admitted call =>
    accept_decides down output matched admitted call, ?_,
    fun i pick t call paused => transmit_keeps call paused⟩
  intro level q p rest nextQ b t b' visited head output check call
  exact (move_decides down (tables.levels e level q visited).1 output head check call).2

/-- A packet of 64 bytes waits in a CIQ that has been resumed, another one in queue 1. -/
def crossingOps : List (Op 2) :=
  [.signal ⟨.pause, ⟨7, 0⟩, 1, ⟨0, 0⟩⟩ 0 none, .accept 0 (dataPacket 0 1 [⟨1, 0⟩, ⟨7, 0⟩]),
   .accept 0 (dataPacket 1 1 [⟨1, 0⟩]), .signal ⟨.resume, ⟨7, 0⟩, 0, ⟨0, 0⟩⟩ 0 none]

theorem crossing_run : ∃ s t u : Switch 2, Operates (smallConfig 2) (fun _ _ => True) s ∧
    (s.matchQ (smallConfig 2) 0 (dataPacket 2 1 [⟨1, 0⟩]) = .ok 1 ∧
      s.admits (smallConfig 2) 0 1 (dataPacket 2 1 [⟨1, 0⟩]) = true ∧
      s.acceptPacket (smallConfig 2) 0 (dataPacket 2 1 [⟨1, 0⟩]) = .ok t) ∧
    (8 ∈ s.priorities 0 1 ∧ s.queues 0 8 = [dataPacket 0 1 [⟨1, 0⟩, ⟨7, 0⟩]] ∧
      s.checkDequeueHierQ (smallConfig 2) 0 1 8 (dataPacket 0 1 [⟨1, 0⟩, ⟨7, 0⟩]) =
        .ok (some (some 1)) ∧
      hierMove (smallConfig 2) 0 1 (s, false) 8 = .ok (u, true)) ∧
    s.egressBytes 0 1 = 64 ∧ s.upstreamPaused 0 1 = none ∧
    (t.egressBytes 0 1 = 128 ∧ t.upstreamPaused 0 1 = some true) ∧
    (u.egressBytes 0 1 = 128 ∧ u.upstreamPaused 0 1 = none) := by
  have ends : ∃ s, performs (smallConfig 2) (fun _ _ => True) {} crossingOps = some s ∧ ∃ t u,
      (s.matchQ (smallConfig 2) 0 (dataPacket 2 1 [⟨1, 0⟩]) = .ok 1 ∧
        s.admits (smallConfig 2) 0 1 (dataPacket 2 1 [⟨1, 0⟩]) = true ∧
        s.acceptPacket (smallConfig 2) 0 (dataPacket 2 1 [⟨1, 0⟩]) = .ok t) ∧
      (8 ∈ s.priorities 0 1 ∧ s.queues 0 8 = [dataPacket 0 1 [⟨1, 0⟩, ⟨7, 0⟩]] ∧
        s.checkDequeueHierQ (smallConfig 2) 0 1 8 (dataPacket 0 1 [⟨1, 0⟩, ⟨7, 0⟩]) =
          .ok (some (some 1)) ∧
        hierMove (smallConfig 2) 0 1 (s, false) 8 = .ok (u, true)) ∧
      s.egressBytes 0 1 = 64 ∧ s.upstreamPaused 0 1 = none ∧
      (t.egressBytes 0 1 = 128 ∧ t.upstreamPaused 0 1 = some true) ∧
      (u.egressBytes 0 1 = 128 ∧ u.upstreamPaused 0 1 = none) :=
    ⟨_, rfl, _, _, ⟨rfl, rfl, rfl⟩,
      ⟨by decide, rfl, rfl, rfl⟩, by decide, by decide, by decide, by decide⟩
  obtain ⟨s, ends, t, u, facts⟩ := ends
  exact ⟨s, t, u, operates_performs .initial ends, facts⟩

/-- The next packet brings queue 1 to 128 bytes, beyond the threshold of 100: its ingress is paused
if the packet comes in directly, and not if it is moved. -/
theorem crossing_missed : ∃ s t u : Switch 2, Operates (smallConfig 2) (fun _ _ => True) s ∧
    s.acceptPacket (smallConfig 2) 0 (dataPacket 2 1 [⟨1, 0⟩]) = .ok t ∧
    hierMove (smallConfig 2) 0 1 (s, false) 8 = .ok (u, true) ∧ t.egressBytes 0 1 = 128 ∧
    u.egressBytes 0 1 = 128 ∧
    (smallConfig 2).thCongestion 1 0 < 128 ∧ t.upstreamPaused 0 1 = some true ∧
    u.upstreamPaused 0 1 = none := by
  obtain ⟨s, t, u, reached, ⟨-, -, direct⟩, ⟨-, -, -, moved⟩, -, -, ⟨long, paused⟩, long',
    unpaused⟩ := crossing_run
  exact ⟨s, t, u, reached, direct, moved, long, long', by decide, paused, unpaused⟩

/-- In that state the packet that comes in decides by the length it leaves, and the one that is
moved does not: it carries queue 1 from 64 bytes to 128. -/
theorem crossing_detected_moved : ∃ s t u : Switch 2, Operates (smallConfig 2) (fun _ _ => True) s ∧
    s.acceptPacket (smallConfig 2) 0 (dataPacket 2 1 [⟨1, 0⟩]) = .ok t ∧
    hierMove (smallConfig 2) 0 1 (s, false) 8 = .ok (u, true) ∧
    Decides (smallConfig 2) s t 1 0 1 ∧ ¬Decides (smallConfig 2) s u 1 0 1 := by
  obtain ⟨s, t, u, reached, ⟨matched, admitted, direct⟩, ⟨visited, head, check, moved⟩, short,
      unpaused, -⟩ :=
    crossing_run
  obtain ⟨enters, moves, -⟩ := crossing_detected reached (e := 0) rfl
  refine ⟨s, t, u, reached, direct, moved, enters _ t 1 (by decide) matched admitted direct,
    fun decided => ?_⟩
  have sides := (moves 1 8 _ [] 1 false u true visited head (by decide) check moved).mp decided
  have sides : s.upstreamPaused 0 1 = some true ∨
      (100 < s.egressBytes 0 1 ↔ 100 < add32 (s.egressBytes 0 1) 64) :=
    sides
  rw [short, unpaused] at sides
  exact absurd sides (by decide)

end Switch

end Pyrrha

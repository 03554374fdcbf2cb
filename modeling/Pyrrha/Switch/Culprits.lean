import Pyrrha.Switch.Asserts

/-!
Isolation touches the culprits only: a packet waits in the CIQ of a root that is still ahead on its
route, a packet that meets no root goes to its default queue, and output queues are never paused.
-/

namespace Pyrrha
open Lib Relation

variable {n : ℕ} {cfg : Config n}

namespace Switch

/-- The root `r` is ahead on the route of `tag`: after the current hop, before the end. -/
def Ahead (tag : RoutingTag) (r : Spot) : Prop :=
  ∃ i, tag.currHop < i ∧ i < tag.activeHop ∧ tag.routing[i]? = some r

/-- Every packet in a CIQ has the root of this CIQ ahead of it. -/
def Culprits (s : Switch n) : Prop :=
  ∀ dev q p, queueNum ≤ q → p ∈ s.queues dev q →
    ∃ r, s.ciqRootMap dev q = some r ∧ Ahead p.routingTag r

theorem ahead_of_match {s : Switch n} {dev : Fin n} {tag : RoutingTag} {level : Option ℕ} {r : Spot}
    {e : CAMEntry n} (h : s.matchNextCongestionRoot cfg dev tag level = .ok (some (r, e))) :
    s.getEntry r = some e ∧ Ahead tag r := by
  obtain ⟨before, i, after, hops, at_i, found, _, _⟩ := matchFirst_some (match_first h)
  have visited : i ∈ matchHops cfg tag level := by simp [hops]
  obtain ⟨lt, _⟩ := List.getElem?_eq_some_iff.mp at_i
  exact ⟨found, i, mem_matchHops_gt visited, lt, at_i⟩

/-! ### The reverse map only loses records while packets move -/

/-- Every record of the reverse map of `t` is one of `s`. -/
def MapShrinks (s t : Switch n) : Prop :=
  ∀ p c r, t.ciqRootMap p c = some r → s.ciqRootMap p c = some r

theorem packetCtl_map {s t : Switch n} (h : PacketCtl cfg s t) : MapShrinks s t := by
  intro x d r
  cases h with
  | rootResume e q =>
    unfold notifyDequeueFromOQ
    split <;> exact id
  | dealloc root e p c | freeMerged root e p c =>
    rw [releaseCIQ_map]
    intro mapped
    split at mapped
    · cases mapped
    · exact mapped
  | _ => exact id

theorem packetCtls_map {s t : Switch n} (h : PacketCtls cfg s t) : MapShrinks s t :=
  packetCtls_preserve (I := MapShrinks s)
    (fun _ _ before last p c r mapped => before p c r (packetCtl_map last p c r mapped))
    (fun _ _ _ mapped => mapped) h

theorem notifyDequeue_map {s t : Switch n} {dev : Fin n} {q : ℕ} {p : Packet n}
    (h : s.notifyDequeue cfg dev q p = .ok t) : MapShrinks s t := by
  rcases notifyDequeue_ctl h with ⟨_, steps⟩ | ⟨_, root, e, _, _, steps⟩
  · exact packetCtls_map steps
  · exact fun x d r mapped => packetCtls_map steps x d r mapped

theorem culprits_shrink {s t : Switch n} (C : Culprits s) (T : Tables t) (M : MapShrinks s t)
    (stay : ∀ dev q p, queueNum ≤ q → p ∈ t.queues dev q → p ∈ s.queues dev q) : Culprits t := by
  intro dev q p hq member
  obtain ⟨r, mapped⟩ :=
    Option.ne_none_iff_exists'.mp (T.stored dev q hq (List.ne_nil_of_mem member))
  obtain ⟨r', mapped', ahead⟩ := C dev q p hq (stay dev q p hq member)
  rw [M dev q r mapped] at mapped'
  obtain rfl := Option.some.inj mapped'
  exact ⟨r, mapped, ahead⟩

theorem culprits_push {s : Switch n} (C : Culprits s) {dev : Fin n} {p : Packet n} {q : ℕ}
    (place : queueNum ≤ q → ∃ r, s.ciqRootMap dev q = some r ∧ Ahead p.routingTag r) :
    Culprits (s.pushQueue dev p q) := by
  intro x y a hy member
  rcases mem_pushQueue member with member | ⟨rfl, rfl, rfl⟩
  · exact C x y a hy member
  · exact place hy

/-! ### Operations -/

theorem matchQ_ahead {s : Switch n} (T : Tables s) {idx : Fin n} {p : Packet n} {q : ℕ}
    (h : s.matchQ cfg idx p = .ok q) (ciq : queueNum ≤ q) :
    ∃ r, s.ciqRootMap idx q = some r ∧ Ahead p.routingTag r := by
  rcases matchQ_cases h with ⟨rfl, _⟩ | ⟨_, r, e, matched, at_q⟩
  · have lt := matchDefaultQ_lt cfg p.header
    omega
  · obtain ⟨found, ahead⟩ := ahead_of_match matched
    exact ⟨r, tables_map T found at_q, ahead⟩

theorem acceptPacket_culprits {s t : Switch n} (T : Tables s) (C : Culprits s) {idx : Fin n}
    {p : Packet n} (h : s.acceptPacket cfg idx p = .ok t) : Culprits t := by
  rcases acceptPacket_cases h with rfl | ⟨q, u, matched, _, _, entered, rfl⟩
  · exact C
  have map := (notifyEnqueue_map entered).1
  have queues := (notifyEnqueue_buffers entered).queues
  have notified : Culprits u := by
    intro x y a hy member
    rw [queues] at member
    rw [map]
    exact C x y a hy member
  rcases switchSend_cases cfg u idx q p with same | pushed
  · rw [same]
    exact notified
  · rw [pushed]
    refine culprits_push notified fun ciq => ?_
    rw [map]
    exact matchQ_ahead T matched ciq

theorem dequeueAndTransmit_culprits {s t : Switch n} (T : Tables s) (C : Culprits s) {dev : Fin n}
    {pick : Option (ℕ × ℕ)} (h : s.dequeueAndTransmit cfg dev pick = .ok t) : Culprits t := by
  have T' := dequeueAndTransmit_tables T h
  rcases dequeueAndTransmit_cases h with rfl | ⟨q, k, p, _, _, _, left⟩
  · exact C
  rcases switchNotifyDequeue_cases left with ⟨_, rfl⟩ | ⟨_, _, u, removed, notified⟩
  · exact culprits_shrink C T' (fun _ _ _ mapped => mapped)
      fun x y a _ member => mem_popQueue (p := p) member
  · obtain ⟨_, rfl⟩ := removeFromEgressAdmission_ok removed
    refine culprits_shrink C T' (fun x d r mapped => notifyDequeue_map notified x d r mapped)
      fun x y a _ member => ?_
    rw [(notifyDequeue_buffers notified).queues] at member
    exact mem_popQueue (p := p) member

theorem hierMove_culprits {s t : Switch n} (T : Tables s) (C : Culprits s) {dev : Fin n}
    {level q : ℕ}
    {b b' : Bool} (h : hierMove cfg dev level (s, b) q = .ok (t, b')) : Culprits t := by
  have T' := hierMove_tables T h
  rcases hierMove_cases h with rfl | ⟨p, rest, nextQ, u, v, w, head, check, left, removed,
    entered, rfl⟩
  · exact C
  have queues := (hierMove_queues left removed entered).1
  obtain ⟨map, place⟩ := notifyEnqueue_map entered
  obtain ⟨_, rfl⟩ := removeFromEgressAdmission_ok removed
  have map : w.ciqRootMap = u.ciqRootMap := map
  have shrinks : MapShrinks s w := by
    intro x d r mapped
    rw [map] at mapped
    exact notifyDequeue_map left x d r mapped
  intro x y a hy member
  rw [show (w.updateEgressAdmission dev nextQ p.size).queues = w.queues from rfl, queues] at member
  obtain ⟨r, mapped⟩ := Option.ne_none_iff_exists'.mp
    (T'.stored x y hy (List.ne_nil_of_mem (by rw [← queues] at member; exact member)))
  have mapped : w.ciqRootMap x y = some r := mapped
  have before := shrinks x y r mapped
  refine ⟨r, mapped, ?_⟩
  rcases mem_pushQueue member with member | ⟨rfl, rfl, rfl⟩
  · obtain ⟨r', mapped', ahead⟩ := C x y a hy (mem_popQueue member)
    rw [before] at mapped'
    obtain rfl := Option.some.inj mapped'
    exact ahead
  · -- the moved packet: its next root was matched before it left
    rcases (checkDequeueHierQ_cases check).2 with ⟨rfl, _⟩ | ⟨r', e', matched, ciq⟩
    · have lt := matchDefaultQ_lt cfg a.header
      omega
    · obtain ⟨found, ahead⟩ := ahead_of_match matched
      rw [tables_map T found ciq] at before
      obtain rfl := Option.some.inj before
      exact ahead

theorem signalCtl_culprits {s t : Switch n} {tag : CITag} {p : Fin n} (T : Tables s)
    (C : Culprits s) (h : SignalCtl cfg tag p s t) : Culprits t := by
  have T' := signalCtl_tables T h
  cases h with
  | register e st b found fresh =>
    intro x y a hy member
    have other : ¬(x = p ∧ y = s.nQueue p) := by
      rintro ⟨rfl, rfl⟩
      simp [registerRoot, registerCIQ, updateEgressAdmission, setEgress, setCiqRoot,
        setPaused, setEntry] at member
    have member : a ∈ s.queues x y := by
      rw [← update₂_of_ne s.queues [] other]
      exact member
    obtain ⟨r, mapped, ahead⟩ := C x y a hy member
    exact ⟨r, (update₂_of_ne s.ciqRootMap (some tag.root) other).trans mapped, ahead⟩
  | retire e old found foundOld =>
    have frame := frame_retire cfg s tag p foundOld
    refine culprits_shrink C T' (fun x d r mapped => by rw [frame.ciqRootMap] at mapped; exact mapped)
      fun x y a _ member => by rw [frame.queues] at member; exact member
  | _ => exact culprits_shrink C T' (fun _ _ _ mapped => mapped) fun _ _ _ _ member => member

theorem packetCtl_culprits {s t : Switch n} (T : Tables s) (C : Culprits s)
    (h : PacketCtl cfg s t) : Culprits t := by
  refine culprits_shrink C (packetCtl_tables T h) (packetCtl_map h) fun x y a _ member => ?_
  rw [(packetCtl_buffers h).queues] at member
  exact member

theorem signalCtls_culprits {s t : Switch n} {tag : CITag} {p : Fin n} (T : Tables s)
    (C : Culprits s) (h : SignalCtls cfg tag p s t) : Culprits t :=
  (signalCtls_preserve (I := fun s => Tables s ∧ Culprits s)
    (fun _ _ before last => ⟨packetCtl_tables before.1 last,
      packetCtl_culprits before.1 before.2 last⟩)
    (fun _ _ before last => ⟨signalCtl_tables before.1 last,
      signalCtl_culprits before.1 before.2 last⟩)
    ⟨T, C⟩ h).2

/-! ### Packets that meet no root, and queues that are never paused -/

/-- No root registered on `dev` lies ahead on `tag`. -/
def MeetsNoRoot (s : Switch n) (dev : Fin n) (tag : RoutingTag) : Prop :=
  ∀ r e, Ahead tag r → s.getEntry r = some e → e.oportCiq dev = none

theorem matchQ_default {s : Switch n} {idx : Fin n} {p : Packet n} {q : ℕ}
    (free : MeetsNoRoot s idx p.routingTag) (h : s.matchQ cfg idx p = .ok q) :
    q = matchDefaultQ cfg p.header := by
  rcases matchQ_cases h with ⟨same, _⟩ | ⟨_, r, e, matched, at_q⟩
  · exact same
  · obtain ⟨found, ahead⟩ := ahead_of_match matched
    rw [free r e ahead found] at at_q
    cases at_q

theorem acceptPacket_default {s t : Switch n} {idx : Fin n} {p : Packet n}
    (free : MeetsNoRoot s idx p.routingTag) (h : s.acceptPacket cfg idx p = .ok t) :
    t.queues = s.queues ∨ t.queues = (s.pushQueue idx p (matchDefaultQ cfg p.header)).queues := by
  rcases acceptPacket_cases h with rfl | ⟨q, u, matched, _, _, entered, rfl⟩
  · exact .inl rfl
  have queues : u.queues = s.queues := (notifyEnqueue_buffers entered).queues
  obtain rfl := matchQ_default free matched
  rcases switchSend_cases cfg u idx (matchDefaultQ cfg p.header) p with same | pushed
  · rw [same]
    exact .inl queues
  · rw [pushed]
    refine .inr ?_
    simp only [pushQueue, queues]

/-- Nobody has written the pause flag of an output queue. -/
def OutputsOpen (s : Switch n) : Prop := ∀ dev q, q < queueNum → s.paused dev (some q) = none

theorem outputsOpen_setPaused {s : Switch n} (O : OutputsOpen s) (dev : Fin n) {c : Option ℕ}
    (high : ∀ q, c = some q → queueNum ≤ q) (v : Option Bool) :
    OutputsOpen (s.setPaused dev c v) := by
  intro x q lt
  have other : ¬(x = dev ∧ some q = c) := by
    rintro ⟨_, eq⟩
    have := high q eq.symm
    omega
  exact (update₂_of_ne s.paused v other).trans (O x q lt)

theorem tables_high {s : Switch n} (T : Tables s) {r : Spot} {e : CAMEntry n}
    (found : s.getEntry r = some e) (p : Fin n) : ∀ c, e.oportCiq p = some c → queueNum ≤ c :=
  fun c ciq => (T.range p c r (tables_map T found ciq)).1

theorem packetCtl_open {s t : Switch n} (T : Tables s) (O : OutputsOpen s) (h : PacketCtl cfg s t) :
    OutputsOpen t := by
  cases h with
  | rootResume e q =>
    unfold notifyDequeueFromOQ
    split <;> exact O
  | dealloc root e p c found ciq | freeMerged root e p c found ciq =>
    have high := tables_high T found p c ciq
    exact outputsOpen_setPaused O p (c := some c) (fun q eq => by cases eq; exact high) none
  | _ => exact O

theorem signalCtl_open {s t : Switch n} {tag : CITag} {p : Fin n} (T : Tables s) (O : OutputsOpen s)
    (h : SignalCtl cfg tag p s t) : OutputsOpen t := by
  cases h with
  | register e st b =>
    have high : ∀ q, some (s.nQueue p) = some q → queueNum ≤ q := by
      intro q eq
      cases eq
      exact T.nQueue p
    exact outputsOpen_setPaused O p high (some b)
  | setStatus e st b found => exact outputsOpen_setPaused O p (tables_high T found p) (some b)
  | retire e old found foundOld =>
    rw [retireOldRoot_eq p found foundOld]
    have unpaused : OutputsOpen (s.unpauseOld p old) := by
      unfold unpauseOld
      split
      · exact outputsOpen_setPaused O p (tables_high T foundOld p) (some false)
      · exact O
    exact unpaused
  | _ => exact O

theorem outputsOpen_control : ControlInvariant cfg (fun _ _ => True) OutputsOpen where
  same O h := by
    intro dev q lt
    rw [h.paused]
    exact O dev q lt
  packet := packetCtl_open
  signal T O _ := signalCtl_open T O
  count _ _ O _ := O

/-! ### Runs -/

theorem step_culprits {s t : Switch n} {ev : Event n} (T : Tables s) (C : Culprits s)
    (h : s.step cfg ev = .ok t) : Culprits t := by
  refine (step_induct (I := fun s => Tables s ∧ Culprits s) ⟨?_, ?_, ?_, ?_, ?_⟩ ⟨T, C⟩ h).2
  · exact fun idx p pick u _ _ call => ⟨acceptPacket_tables T call, acceptPacket_culprits T C call⟩
  · exact fun u v dev pick before call =>
      ⟨dequeueAndTransmit_tables before.1 call, dequeueAndTransmit_culprits before.1 before.2 call⟩
  · exact fun u v dev level q b b' before _ call =>
      ⟨hierMove_tables before.1 call, hierMove_culprits before.1 before.2 call⟩
  · exact fun tag p pick u _ steps => ⟨signalCtls_tables T steps, signalCtls_culprits T C steps⟩
  · intro dev p _
    refine ⟨frame_switchSend cfg T dev p, ?_⟩
    rcases switchSend_cases cfg s dev 0 p with same | pushed
    · rw [same]
      exact C
    · rw [pushed]
      exact culprits_push C (by simp [queueNum])

theorem reachable_culprits {allowed : Switch n → Event n → Switch n → Prop} {s : Switch n}
    (h : Reachable cfg allowed s) : Culprits s := by
  induction h with
  | initial => exact fun dev q p _ member => by cases member
  | step before call _ ih => exact step_culprits (reachable_tables before) ih call

theorem reachable_open {allowed : Switch n → Event n → Switch n → Prop} {s : Switch n}
    (h : Reachable cfg allowed s) : OutputsOpen s :=
  control_reachable outputsOpen_control (fun _ _ _ => rfl) h

/-- Isolation of the culprits: in every reachable state a packet in the CIQ of a root has this root
ahead on its route, a packet that meets no registered root when it arrives is stored in its default
output queue or not at all, and no event changes the pause flag of an output queue, which is
unset. -/
theorem culprits_isolated {s : Switch n} (reached : Reaches cfg s) :
    (∀ dev q p, queueNum ≤ q → p ∈ s.queues dev q →
      ∃ r, s.ciqRootMap dev q = some r ∧ Ahead p.routingTag r) ∧
    (∀ idx p t, MeetsNoRoot s idx p.routingTag → s.acceptPacket cfg idx p = .ok t →
      t.queues = s.queues ∨ t.queues = (s.pushQueue idx p (matchDefaultQ cfg p.header)).queues) ∧
    (∀ dev q, q < queueNum → s.paused dev (some q) = none) ∧
    (∀ ev t, s.step cfg ev = .ok t → ∀ dev q, q < queueNum → t.paused dev (some q) = none) := by
  refine ⟨reachable_culprits reached, fun idx p t free accepted =>
    acceptPacket_default free accepted, reachable_open reached, fun ev t call => ?_⟩
  exact reachable_open (.step reached call trivial)

theorem culprits_isolated_paused : ∃ s, run (smallConfig 2) {} pausedRun = .ok s ∧
    s.queues 0 8 ≠ [] ∧
    ∀ p ∈ s.queues 0 8, ∃ r, s.ciqRootMap 0 8 = some r ∧ Ahead p.routingTag r := by
  obtain ⟨s, ends, nonempty⟩ := run_ends (smallConfig 2) pausedRun
    (fun s => decide (s.queues 0 8 ≠ [])) (by decide)
  have isolated := (culprits_isolated (reaches_run ends)).1
  exact ⟨s, ends, by simpa using nonempty, fun p member => isolated 0 8 p (by decide) member⟩

end Switch

end Pyrrha

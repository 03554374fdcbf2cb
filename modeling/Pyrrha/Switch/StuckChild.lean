import Pyrrha.Switch.Culprits

/-!
A child that has been told to pause has bytes left in a CIQ of the root, unless its last counted
bytes leave through a merging port, where no resume is tested.
-/

namespace Pyrrha
open Lib Relation

variable {n : ℕ} {cfg : Config n}

namespace Switch

/-! ### What notifications do to the children -/

/-- The entries of `t` are some of those of `s`, with the same records of their children. -/
def KeepsChildren (s t : Switch n) : Prop :=
  ∀ r f, t.getEntry r = some f →
    ∃ e, s.getEntry r = some e ∧ f.iportPaused = e.iportPaused ∧ f.iportCounter = e.iportCounter

theorem keepsChildren_refl (s : Switch n) : KeepsChildren s s :=
  fun _ e found => ⟨e, found, rfl, rfl⟩

theorem keepsChildren_trans {s t u : Switch n} (h : KeepsChildren s t) (k : KeepsChildren t u) :
    KeepsChildren s u := by
  intro r g found
  obtain ⟨f, found', paused', counter'⟩ := k r g found
  obtain ⟨e, found, paused, counter⟩ := h r f found'
  exact ⟨e, found, paused'.trans paused, counter'.trans counter⟩

theorem keepsChildren_setEntry {s : Switch n} {root : Spot} {e f : CAMEntry n}
    (found : s.getEntry root = some e) (paused : f.iportPaused = e.iportPaused)
    (counter : f.iportCounter = e.iportCounter) : KeepsChildren s (s.setEntry root f) := by
  intro r g found'
  rw [getEntry_setEntry] at found'
  split at found'
  · rename_i eq
    cases found'
    exact ⟨e, by rw [eq, found], paused, counter⟩
  · exact ⟨g, found', rfl, rfl⟩

theorem keepsChildren_erase (s : Switch n) (root : Spot) : KeepsChildren s (s.eraseEntry root) := by
  intro r f found
  simp only [getEntry, eraseEntry, Function.update_apply] at found
  split at found
  · cases found
  · exact ⟨f, found, rfl, rfl⟩

theorem deallocPort_children {root : Spot} {s t : Switch n} {all all' : Bool} {i : Fin n}
    (h : deallocPort root (s, all) i = .ok (t, all')) : KeepsChildren s t := by
  cases found : s.getEntry root with
  | none => simp [deallocPort, found] at h
  | some e =>
    rcases deallocPort_cases found h with ⟨_, rfl, _⟩ | ⟨c, _, _, _, _, rfl⟩ | ⟨_, rfl, _⟩
    · exact keepsChildren_refl _
    · exact keepsChildren_setEntry (f := (e.setStatus i .initial).setCiq i none) found rfl rfl
    · exact keepsChildren_refl _

theorem checkAndSendDealloc_children {root : Spot} {s t : Switch n}
    (h : s.checkAndSendDealloc cfg root = .ok t) : KeepsChildren s t := by
  simp only [checkAndSendDealloc] at h
  split at h
  · cases h
    exact keepsChildren_refl s
  split at h
  · cases h
  split at h
  · cases h
    exact keepsChildren_refl s
  obtain ⟨⟨u, all⟩, loop, h⟩ := bind_ok h
  have visited : KeepsChildren s u :=
    foldlM_preserves (I := fun acc : Switch n × Bool => KeepsChildren s acc.1)
    (fun i _ acc acc' before call => keepsChildren_trans before (deallocPort_children call))
    (keepsChildren_refl s) loop
  cases h
  split
  · exact keepsChildren_trans visited (keepsChildren_erase u root)
  · exact visited

theorem releaseMergeCIQEntry_children {root : Spot} {oport : Fin n} {s t : Switch n}
    (h : s.releaseMergeCIQEntry cfg root oport = .ok t) : KeepsChildren s t := by
  have released : ∀ (u : Switch n) e, KeepsChildren u (u.releaseEntry root e) := by
    intro u e
    unfold releaseEntry
    split
    · exact keepsChildren_erase u root
    · exact keepsChildren_refl u
  simp only [releaseMergeCIQEntry] at h
  split at h
  · cases h
  rename_i e found
  split at h
  · cases h
  split at h
  · cases h
    exact keepsChildren_refl s
  rename_i c ciq
  split at h
  · cases h
  split at h
  · split at h
    · cases h
    · cases h
      have freed : KeepsChildren s (s.releaseCIQ root e oport c) :=
        keepsChildren_setEntry (f := e.setCiq oport none) found rfl rfl
      exact keepsChildren_trans freed (released _ _)
  · cases h
    exact released s e

/-- A packet that leaves a CIQ: its entry is credited, may then resume the child, and keeps these
records if it is not erased. -/
theorem notifyDequeue_children {s t : Switch n} {dev : Fin n} {q : ℕ} {p : Packet n}
    (ciq : queueNum ≤ q) (h : s.notifyDequeue cfg dev q p = .ok t) :
    ∃ root e, s.ciqRootMap dev q = some root ∧ s.getEntry root = some e ∧
      KeepsChildren ((s.countOut root e p).resumeChild cfg root
        (e.setCounter p.inDev (sub32 (e.iportCounter p.inDev) p.size)) p.inDev dev) t := by
  have pos : 0 < queueNum := by decide
  rw [notifyDequeue, if_neg (by omega), if_neg (by omega)] at h
  simp only [notifyDequeueFromCIQ] at h
  split at h
  · cases h
  rename_i root mapped
  split at h
  · cases h
  rename_i e found
  refine ⟨root, e, mapped, found, ?_⟩
  split at h
  · exact checkAndSendDealloc_children h
  · exact releaseMergeCIQEntry_children h

/-! ### Paused children -/

/-- A paused child has counted bytes, and counters are 32 bits wide. -/
structure ChildBacked (s : Switch n) : Prop where
  paused : ∀ r e i, s.getEntry r = some e → e.iportPaused i = some true → 0 < e.iportCounter i
  small : ∀ r e i, s.getEntry r = some e → e.iportCounter i < 2 ^ 32

theorem childBacked_setEntry {s : Switch n} (B : ChildBacked s) {root : Spot} {f : CAMEntry n}
    (paused : ∀ i, f.iportPaused i = some true → 0 < f.iportCounter i)
    (small : ∀ i, f.iportCounter i < 2 ^ 32) : ChildBacked (s.setEntry root f) := by
  constructor
  · intro r e i found
    rw [getEntry_setEntry] at found
    split at found
    · cases found
      exact paused i
    · exact B.paused r e i found
  · intro r e i found
    rw [getEntry_setEntry] at found
    split at found
    · cases found
      exact small i
    · exact B.small r e i found

theorem childBacked_keeps {s t : Switch n} (B : ChildBacked s) (K : KeepsChildren s t) :
    ChildBacked t := by
  constructor
  · intro r f i found is_paused
    obtain ⟨e, found', paused, counter⟩ := K r f found
    rw [counter]
    exact B.paused r e i found' (by rw [← paused]; exact is_paused)
  · intro r f i found
    obtain ⟨e, found', _, counter⟩ := K r f found
    rw [counter]
    exact B.small r e i found'

theorem childBacked_same {s t : Switch n} (B : ChildBacked s)
    (entries : t.congestionEntries = s.congestionEntries) : ChildBacked t := by
  constructor
  · intro r e i found
    rw [getEntry, entries] at found
    exact B.paused r e i found
  · intro r e i found
    rw [getEntry, entries] at found
    exact B.small r e i found

/-- Nobody but `i` changes its record of pauses, and `i` is no longer or newly paused. -/
theorem childBacked_paused {s : Switch n} (B : ChildBacked s) {root : Spot} {e : CAMEntry n}
    (found : s.getEntry root = some e) (i : Fin n) {v : Option Bool}
    (backed : v = some true → 0 < e.iportCounter i) :
    ChildBacked (s.setEntry root (e.setIportPaused i v)) := by
  refine childBacked_setEntry B (fun j is_paused => ?_) fun j => B.small root e j found
  simp only [CAMEntry.setIportPaused, Function.update_apply] at is_paused ⊢
  split at is_paused
  · rename_i eq
    rw [eq]
    exact backed is_paused
  · exact B.paused root e j found is_paused

theorem childBacked_packetCtl {s t : Switch n} (B : ChildBacked s) (h : PacketCtl cfg s t) :
    ChildBacked t := by
  cases h with
  | rootPause => exact childBacked_same B rfl
  | rootResume e q =>
    unfold notifyDequeueFromOQ
    split <;> exact childBacked_same B rfl
  | childPause root e i p found check =>
    simp only [CAMEntry.checkCIQPause, Bool.and_eq_true, decide_eq_true_eq] at check
    have B' := childBacked_paused B found i (v := some true) fun _ => by omega
    exact childBacked_same B' rfl
  | childResume root e i p found =>
    have B' := childBacked_paused B found i (v := some false) fun h => by cases h
    exact childBacked_same B' rfl
  | dealloc root e p c found =>
    exact childBacked_keeps B
      (keepsChildren_setEntry (f := (e.setStatus p .initial).setCiq p none) found rfl rfl)
  | freeMerged root e p c found =>
    exact childBacked_keeps B (keepsChildren_setEntry (f := e.setCiq p none) found rfl rfl)
  | erase root => exact childBacked_keeps B (keepsChildren_erase s root)

theorem childBacked_signalCtl {s t : Switch n} {tag : CITag} {p : Fin n} (B : ChildBacked s)
    (h : SignalCtl cfg tag p s t) : ChildBacked t := by
  -- children that a merge moves are recorded as resumed
  have moved : ∀ (u : Switch n) r e old (moves : Fin n → Bool), ChildBacked u →
    u.getEntry r = some e → ChildBacked (u.mergeUpstreams r e old moves) := by
    intro u r e old moves B found
    have B' : ChildBacked (u.setEntry r (e.setCIQResumes moves)) := by
      refine childBacked_setEntry B (fun j is_paused => ?_) fun j => B.small r e j found
      simp only [CAMEntry.setCIQResumes] at is_paused ⊢
      split at is_paused
      · cases is_paused
      · exact B.paused r e j found is_paused
    exact childBacked_same B' rfl
  cases h with
  | create => exact childBacked_setEntry B (fun i is_paused => by cases is_paused) fun _ => by simp
  | register e st b found =>
    have B' := childBacked_keeps B (keepsChildren_setEntry
      (f := (e.setCiq p (some (s.nQueue p))).setStatus p st) found rfl rfl)
    exact childBacked_same B' (by
      simp [setPaused, registerRoot, updateEgressAdmission, setEgress, setCiqRoot, setEntry,
        registerCIQ])
  | setStatus e st b found =>
    exact childBacked_keeps B (keepsChildren_setEntry (f := e.setStatus p st) found rfl rfl)
  | startMerge e found =>
    have B' :=
      moved s tag.root e ⟨cfg.mId, p⟩ (fun i => decide (s.upstreamPaused p i ≠ none)) B found
    exact childBacked_same B' rfl
  | retire e old found foundOld =>
    rw [retireOldRoot_eq p found foundOld]
    have same : (s.unpauseOld p old).congestionEntries = s.congestionEntries := by
      unfold unpauseOld
      split <;> rfl
    have entry : (s.unpauseOld p old).getEntry tag.root = some e := by rw [getEntry, same]; exact found
    refine childBacked_setEntry (moved _ _ _ _ _ (childBacked_same B same) entry)
      (fun i is_paused => by cases is_paused) fun i => B.small tag.old old i foundOld
  | childDealloc e found => exact childBacked_paused B found p fun h => by cases h
  | rootDealloc => exact childBacked_same B rfl

/-! ### Operations -/

/-- Counting `p` into queue `q` would wrap the counter of a paused child to zero. -/
def Wraps (s : Switch n) (dev : Fin n) (q : ℕ) (p : Packet n) : Prop :=
  ∃ r e, s.ciqRootMap dev q = some r ∧ s.getEntry r = some e ∧ e.iportPaused p.inDev = some true ∧
    add32 (e.iportCounter p.inDev) p.size = 0

/-- `p` holds the last counted bytes of a paused child, and `q` is a merging CIQ. -/
def LastOfMerging (s : Switch n) (dev : Fin n) (q : ℕ) (p : Packet n) : Prop :=
  ∃ r e, s.ciqRootMap dev q = some r ∧ s.getEntry r = some e ∧ e.oportStatus dev = .merge ∧
    e.iportPaused p.inDev = some true ∧ sub32 (e.iportCounter p.inDev) p.size = 0

instance (s : Switch n) (dev : Fin n) (q : ℕ) (p : Packet n) : Decidable (s.Wraps dev q p) :=
  decidable_of_iff (∃ r ∈ s.ciqRootMap dev q, ∃ e ∈ s.getEntry r,
    e.iportPaused p.inDev = some true ∧ add32 (e.iportCounter p.inDev) p.size = 0) (by simp [Wraps])

instance (s : Switch n) (dev : Fin n) (q : ℕ) (p : Packet n) :
    Decidable (s.LastOfMerging dev q p) :=
  decidable_of_iff (∃ r ∈ s.ciqRootMap dev q, ∃ e ∈ s.getEntry r, e.oportStatus dev = .merge ∧
    e.iportPaused p.inDev = some true ∧ sub32 (e.iportCounter p.inDev) p.size =
      0) (by simp [LastOfMerging])

/-- No counter of a paused child wraps to zero, and no merging CIQ is left by the last counted bytes
of one. -/
def Watched (cfg : Config n) (s : Switch n) : Op n → Prop
  | .accept idx p => ∀ q, s.matchQ cfg idx p = .ok q → ¬s.Wraps idx q p
  | .move dev level q => ∀ p rest nextQ, s.queues dev q = p :: rest →
      s.checkDequeueHierQ cfg dev level q p = .ok (some (some nextQ)) →
      ¬s.LastOfMerging dev q p ∧ ¬s.Wraps dev nextQ p
  | _ => True

instance (s : Switch n) (op : Op n) : Decidable (Watched cfg s op) :=
  match op with
  | .accept idx p => decidable_of_iff (∀ q ∈ (s.matchQ cfg idx p).toOption, ¬s.Wraps idx q p)
      (by simp [Watched, toOption_eq_some])
  | .move dev level q =>
    decidable_of_iff (∀ p ∈ (s.queues dev q).head?,
      ∀ nextQ ∈ (s.checkDequeueHierQ cfg dev level q p).toOption.join.join,
        ¬s.LastOfMerging dev q p ∧ ¬s.Wraps dev nextQ p) <| by
      simp only [Watched, Option.mem_def, List.head?_eq_some_iff, Option.join_eq_some_iff,
        toOption_eq_some]
      exact ⟨fun all p rest nextQ head check => all p ⟨rest, head⟩ nextQ check,
        fun all p head nextQ check => all p head.choose nextQ head.choose_spec check⟩
  | .transmit .. | .signal .. | .frame .. => isTrue trivial

theorem childBacked_enqueue {s t : Switch n} (B : ChildBacked s) {idx : Fin n} {q : ℕ}
    {p : Packet n}
    (safe : ¬s.Wraps idx q p) (h : s.notifyEnqueue cfg idx q p = .ok t) : ChildBacked t := by
  rcases notifyEnqueue_ctl h with ⟨_, steps⟩ | ⟨_, root, e, mapped, found, steps⟩
  · exact packetCtls_preserve (fun _ _ => childBacked_packetCtl) B steps
  refine packetCtls_preserve (fun _ _ => childBacked_packetCtl) ?_ steps
  refine childBacked_setEntry B (fun i is_paused => ?_) fun i => ?_
  · simp only [CAMEntry.setCounter, Function.update_apply] at is_paused ⊢
    split
    · rename_i eq
      rw [eq] at is_paused
      by_contra zero
      exact safe ⟨root, e, mapped, found, is_paused, by omega⟩
    · exact B.paused root e i found is_paused
  · simp only [CAMEntry.setCounter, Function.update_apply]
    split
    · exact Nat.mod_lt _ (by decide)
    · exact B.small root e i found

theorem childBacked_dequeue {s t : Switch n} (B : ChildBacked s)
    (thresholds : ∀ i e, 1 ≤ cfg.thResume i e)
    {dev : Fin n} {q : ℕ} {p : Packet n} (ciq : queueNum ≤ q) (safe : ¬s.LastOfMerging dev q p)
    (h : s.notifyDequeue cfg dev q p = .ok t) : ChildBacked t := by
  obtain ⟨root, e, mapped, found, keeps⟩ := notifyDequeue_children ciq h
  refine childBacked_keeps ?_ keeps
  have small : ∀ i, (e.setCounter p.inDev (sub32 (e.iportCounter p.inDev) p.size)).iportCounter i <
      2 ^ 32 := by
    intro i
    simp only [CAMEntry.setCounter, Function.update_apply]
    split
    · exact Nat.mod_lt _ (by decide)
    · exact B.small root e i found
  have others : ∀ i, i ≠ p.inDev → e.iportPaused i = some true →
      0 < (e.setCounter p.inDev (sub32 (e.iportCounter p.inDev) p.size)).iportCounter i := by
    intro i ne is_paused
    simpa [CAMEntry.setCounter, ne] using B.paused root e i found is_paused
  unfold resumeChild
  split
  · -- resumed: the child is no longer paused
    have B' : ChildBacked (s.setEntry root
        ((e.setCounter p.inDev (sub32 (e.iportCounter p.inDev) p.size)).setCIQResume p.inDev)) := by
      refine childBacked_setEntry B (fun i is_paused => ?_) small
      by_cases here : i = p.inDev
      · rw [here] at is_paused
        simp [CAMEntry.setCIQResume, CAMEntry.setIportPaused] at is_paused
      · refine others i here ?_
        simpa [CAMEntry.setCIQResume, CAMEntry.setIportPaused, CAMEntry.setCounter,
          here] using is_paused
    exact childBacked_same B' (by simp [countOut, setEntry, sendCIPacket])
  · rename_i kept
    refine childBacked_setEntry B (fun i is_paused => ?_) small
    by_cases here : i = p.inDev
    · subst here
      have is_paused : e.iportPaused p.inDev = some true := is_paused
      have counter :
        (e.setCounter p.inDev (sub32 (e.iportCounter p.inDev) p.size)).iportCounter p.inDev =
          sub32 (e.iportCounter p.inDev) p.size := by simp [CAMEntry.setCounter]
      rw [counter]
      by_contra zero
      -- on a merging port this is excluded, elsewhere the child would have been resumed
      by_cases merging : e.oportStatus dev = .merge
      · exact safe ⟨root, e, mapped, found, merging, is_paused, by omega⟩
      · have threshold := thresholds p.inDev dev
        have status : (e.setCounter p.inDev (sub32 (e.iportCounter p.inDev) p.size)).oportStatus
            dev ≠ .merge :=
          merging
        have paused :
          (e.setCounter p.inDev (sub32 (e.iportCounter p.inDev) p.size)).iportPaused p.inDev =
          some true := is_paused
        refine kept ?_
        simp only [CAMEntry.checkCIQResume, paused, counter]
        simp [status]
        omega
    · exact others i here is_paused

theorem childBacked_transmit {s t : Switch n} (B : ChildBacked s) {dev : Fin n}
    {pick : Option (ℕ × ℕ)} (h : s.dequeueAndTransmit cfg dev pick = .ok t) : ChildBacked t := by
  rcases dequeueAndTransmit_cases h with rfl | ⟨q, k, p, oq, _, _, left⟩
  · exact B
  have sent : ChildBacked ((s.popQueue dev q k p).transmitStart dev q p) := childBacked_same B rfl
  rcases switchNotifyDequeue_cases left with ⟨_, rfl⟩ | ⟨_, _, u, removed, notified⟩
  · exact sent
  · obtain ⟨_, rfl⟩ := removeFromEgressAdmission_ok removed
    rcases notifyDequeue_ctl notified with ⟨_, steps⟩ | ⟨ciq, _⟩
    · refine packetCtls_preserve (fun _ _ => childBacked_packetCtl) ?_ steps
      exact childBacked_same sent rfl
    · omega

theorem childBacked_send {s : Switch n} (B : ChildBacked s) (dev : Fin n) (q : ℕ) (p : Packet n) :
    ChildBacked (s.switchSend cfg dev q p) := by
  rcases switchSend_cases cfg s dev q p with same | pushed
  · rw [same]
    exact B
  · rw [pushed]
    exact childBacked_same B rfl

/-- A dequeue notification changes the entry of one root, and pauses nobody. -/
theorem wraps_dequeue {s u : Switch n} (B : ChildBacked s) {dev : Fin n}
    {q nextQ : ℕ} {p : Packet n} (ciq : queueNum ≤ q) (safe : ¬s.Wraps dev nextQ p)
    (left : s.notifyDequeue cfg dev q p = .ok u) (shrinks : ∀ r, u.ciqRootMap dev nextQ = some r →
      s.ciqRootMap dev nextQ = some r) : ¬u.Wraps dev nextQ p := by
  rintro ⟨r, f, mapped, found, is_paused, zero⟩
  obtain ⟨root, e, mapped₀, found₀, keeps⟩ := notifyDequeue_children ciq left
  obtain ⟨g, found', paused', counter'⟩ := keeps r f found
  rw [paused'] at is_paused
  rw [counter'] at zero
  have small := B.small root e p.inDev found₀
  have size := p.size_lt
  -- the entry of `r` after the resume test
  unfold resumeChild at found'
  have original : r = root → e.iportPaused p.inDev = some true ∧
      g.iportCounter p.inDev = sub32 (e.iportCounter p.inDev) p.size := by
    rintro rfl
    split at found'
    · rw [getEntry_setEntry_same] at found'
      cases found'
      simp [CAMEntry.setCIQResume, CAMEntry.setIportPaused] at is_paused
    · rw [countOut, getEntry_setEntry_same] at found'
      cases found'
      exact ⟨is_paused, by simp [CAMEntry.setCounter]⟩
  by_cases same : r = root
  · obtain ⟨was_paused, counter⟩ := original same
    have backed := B.paused root e p.inDev found₀ was_paused
    rw [counter, add32, sub32] at zero
    omega
  · have other : s.getEntry r = some g := by
      rw [← found']
      split
      · exact (((getEntry_setEntry _ root r _).trans (if_neg same)).trans
          ((getEntry_setEntry s root r _).trans (if_neg same))).symm
      · exact ((getEntry_setEntry s root r _).trans (if_neg same)).symm
    exact safe ⟨r, g, shrinks r mapped, other, is_paused, zero⟩

theorem operated_childBacked {s t : Switch n} {op : Op n} (T : Tables s) (B : ChildBacked s)
    (thresholds : ∀ i e, 1 ≤ cfg.thResume i e) (watched : Watched cfg s op)
    (h : Operated cfg s op t) : ChildBacked t := by
  cases h with
  | @accept _ idx p data call =>
    rcases acceptPacket_cases call with rfl | ⟨q, u, matched, _, _, entered, rfl⟩
    · exact B
    have charged : ChildBacked (s.updateEgressAdmission idx q p.size) := childBacked_same B rfl
    exact childBacked_send (childBacked_enqueue charged (watched q matched) entered) idx q p
  | transmit call => exact childBacked_transmit B call
  | @move _ dev level q b b' visited call =>
    have high := (T.levels dev level q visited).1
    rcases hierMove_cases call with rfl | ⟨p, rest, nextQ, u, v, w, head, check, left, removed,
      entered, rfl⟩
    · exact B
    obtain ⟨last, wraps⟩ := watched p rest nextQ head check
    have popped : ChildBacked (s.popQueue dev q 0 p) := childBacked_same B rfl
    have out := childBacked_dequeue popped thresholds high last left
    obtain ⟨_, rfl⟩ := removeFromEgressAdmission_ok removed
    have shrinks : ∀ r, u.ciqRootMap dev nextQ = some r → s.ciqRootMap dev nextQ = some r :=
      fun r mapped => notifyDequeue_map left dev nextQ r mapped
    have safe := wraps_dequeue popped high wraps left shrinks
    have pushed :
        ChildBacked ((u.setEgress dev q (u.egressBytes dev q - p.size)).pushQueue dev p nextQ) :=
      childBacked_same out rfl
    exact childBacked_same (childBacked_enqueue pushed safe entered) rfl
  | signal call =>
    obtain ⟨u, pick', steps, sent⟩ := receiveCI_ctl call
    exact childBacked_transmit (signalCtls_preserve (fun _ _ => childBacked_packetCtl)
      (fun _ _ => childBacked_signalCtl) B steps) sent
  | frame => exact childBacked_send B _ 0 _

theorem operates_childBacked {s : Switch n} (thresholds : ∀ i e, 1 ≤ cfg.thResume i e)
    (h : Operates cfg (Watched cfg) s) : ChildBacked s := by
  induction h with
  | initial =>
    constructor
    · intro _ _ _ found
      cases found
    · intro _ _ _ found
      cases found
  | step before watched call ih =>
      exact operated_childBacked (operates_tables before) ih thresholds watched call

/-- No stuck child: on watched runs, a child that has been told to pause has counted bytes left. -/
theorem paused_counted {s : Switch n} (thresholds : ∀ i e, 1 ≤ cfg.thResume i e)
    (reached : Operates cfg (Watched cfg) s) :
    ∀ r e i, s.getEntry r = some e → e.iportPaused i = some true → 0 < e.iportCounter i :=
  (operates_childBacked thresholds reached).paused

/-- The second of two packets of device 1 that wait for the root `⟨7, 0⟩` makes device 1 pause. -/
def childOps : List (Op 2) :=
  [.signal ⟨.pause, ⟨7, 0⟩, 1, ⟨0, 0⟩⟩ 0 none, .accept 0 (dataPacket 0 1 [⟨1, 0⟩, ⟨7, 0⟩]),
   .accept 0 (dataPacket 1 1 [⟨1, 0⟩, ⟨7, 0⟩])]

theorem paused_counted_child : ∃ s, Operates (smallConfig 2) (Watched (smallConfig 2)) s ∧
    ∃ e, s.getEntry ⟨7, 0⟩ = some e ∧ e.iportPaused 1 = some true ∧ 0 < e.iportCounter 1 := by
  have ends : ∃ s, performs (smallConfig 2) (Watched (smallConfig 2)) {} childOps = some s ∧
      ∃ e ∈ s.getEntry ⟨7, 0⟩, e.iportPaused 1 = some true := by
    refine ⟨_, Option.get_mem (?_ : Option.isSome _), ?_⟩ <;> decide
  obtain ⟨s, ends, e, found, is_paused⟩ := ends
  have reached := operates_performs .initial ends
  exact ⟨s, reached, e, found, is_paused,
    paused_counted (by decide) reached ⟨7, 0⟩ e 1 found is_paused⟩

/-- Two packets of device 2 wait for the root `⟨7, 0⟩`, one on port 1, whose CIQ is then merged into
the tree of `⟨8, 0⟩`, one on port 0, which makes device 2 pause. The round empties port 0 first. -/
def stuckRun : List (Event 3) :=
  [.receiveCI ⟨.pause, ⟨7, 0⟩, 1, ⟨0, 0⟩⟩ 0 none,
   .receiveCI ⟨.pause, ⟨7, 0⟩, 1, ⟨0, 0⟩⟩ 1 none,
   .sendToDev 1 (dataPacket 0 2 [⟨1, 1⟩, ⟨7, 0⟩]) none,
   .receiveCI ⟨.merge, ⟨8, 0⟩, 2, ⟨7, 0⟩⟩ 1 none,
   .sendToDev 0 (dataPacket 1 2 [⟨1, 0⟩, ⟨7, 0⟩]) none,
   .receiveCI ⟨.resume, ⟨7, 0⟩, 0, ⟨0, 0⟩⟩ 0 none,
   .doHierQRR fun _ => none]

theorem paused_stuck : ∃ s, run (smallConfig 3) {} stuckRun = .ok s ∧
    ∃ e, s.getEntry ⟨7, 0⟩ = some e ∧ e.iportPaused 2 = some true ∧ e.iportCounter 2 = 0 := by
  obtain ⟨s, ends, facts⟩ := run_ends (smallConfig 3) stuckRun
    (fun s => decide (∃ e ∈ s.getEntry ⟨7, 0⟩, e.iportPaused 2 = some true ∧ e.iportCounter 2 = 0))
      (by decide)
  exact ⟨s, ends, by simpa using facts⟩

end Switch

end Pyrrha

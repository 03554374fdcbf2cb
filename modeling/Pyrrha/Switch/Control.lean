import Mathlib.Logic.Relation
import Pyrrha.Lib.Checked
import Pyrrha.Switch.Node

/-!
The atomic control updates of a switch, each with what the code checked before it. Every function of
`Node` changes the control state by a sequence of them, so an invariant of the control state is
proved once for each update.
-/

namespace Pyrrha
open Lib Relation

variable {n : ℕ} {cfg : Config n}

/-- The status a signal sets on the CIQ of its root, with the pause flag it writes. -/
inductive SignalStatus (tag : CITag) : CIQStatus → Bool → Prop where
  | pause (type : tag.ciType = .pause) : SignalStatus tag .pause true
  | resume (type : tag.ciType = .resume ∨ tag.ciType = .merge) : SignalStatus tag .resume false

namespace Switch

/-- The control updates that a packet entering or leaving a queue can cause. -/
inductive PacketCtl (cfg : Config n) (s : Switch n) : Switch n → Prop where
  | rootPause (i e : Fin n) (q : ℕ) (gate : (cfg.onlyDownPortEnable && cfg.upPort e) = false)
      (check : s.checkRootPause cfg i e q) :
      PacketCtl cfg s ((s.sendCIPacket i (pauseTag ⟨cfg.mId, e⟩ 1)).setRootPause i e)
  | rootResume (e : Fin n) (q : ℕ) : PacketCtl cfg s (s.notifyDequeueFromOQ cfg e q)
  | childPause (root : Spot) (e : CAMEntry n) (i p : Fin n) (found : s.getEntry root = some e)
      (check : e.checkCIQPause cfg i p) (mapped : ∃ x c, s.ciqRootMap x c = some root) :
      PacketCtl cfg s ((s.sendCIPacket i (pauseTag root (e.hop + 1))).setEntry root
        (e.setCIQPause i))
  | childResume (root : Spot) (e : CAMEntry n) (i p : Fin n) (found : s.getEntry root = some e)
      (check : e.checkCIQResume cfg i p) :
      PacketCtl cfg s ((s.sendCIPacket i (resumeTag root)).setEntry root (e.setCIQResume i))
  | dealloc (root : Spot) (e : CAMEntry n) (p : Fin n) (c : ℕ) (found : s.getEntry root = some e)
      (ciq : e.oportCiq p = some c) (empty : s.bytesInQueue p c = 0)
      (status : e.oportStatus p = .resume) (free : hasChildren cfg e = false) :
      PacketCtl cfg s ((s.sendCIPacket p (deallocTag root)).releaseCIQ root
        (e.setStatus p .initial) p c)
  | freeMerged (root : Spot) (e : CAMEntry n) (p : Fin n) (c : ℕ) (found : s.getEntry root = some e)
      (ciq : e.oportCiq p = some c) (empty : s.bytesInQueue p c = 0)
      (status : e.oportStatus p = .merge) : PacketCtl cfg s (s.releaseCIQ root e p c)
  | erase (root : Spot) (e : CAMEntry n) (found : s.getEntry root = some e)
      (ciqs : ∀ p, e.oportCiq p = none) (free : hasChildren cfg e = false) :
      PacketCtl cfg s (s.eraseEntry root)

/-- The further control updates that the signal `tag`, received on device `p`, can cause. -/
inductive SignalCtl (cfg : Config n) (tag : CITag) (p : Fin n) (s : Switch n) :
    Switch n → Prop where
  | create (type : tag.ciType = .pause ∨ tag.ciType = .merge) (absent : s.getEntry tag.root = none)
      (pos : 0 < tag.hop) :
      SignalCtl cfg tag p s (s.setEntry tag.root { hop := tag.hop })
  | register (e : CAMEntry n) (st : CIQStatus) (b : Bool) (found : s.getEntry tag.root = some e)
      (fresh : registers e tag.root p) (signal : SignalStatus tag st b) :
      SignalCtl cfg tag p s (((s.registerRoot tag.root e p).1.setEntry tag.root
        ((s.registerRoot tag.root e p).2.setStatus p st)).setPaused p (some (s.nQueue p)) (some b))
  | setStatus (e : CAMEntry n) (st : CIQStatus) (b : Bool) (found : s.getEntry tag.root = some e)
      (known : ¬registers e tag.root p) (signal : SignalStatus tag st b) :
      SignalCtl cfg tag p s ((s.setEntry tag.root (e.setStatus p st)).setPaused p
        (e.oportCiq p) (some b))
  | startMerge (e : CAMEntry n) (found : s.getEntry tag.root = some e)
      (pause : tag.ciType = .pause) : SignalCtl cfg tag p s (s.startMerge cfg tag.root e p)
  | retire (e old : CAMEntry n) (found : s.getEntry tag.root = some e)
      (foundOld : s.getEntry tag.old = some old) (merge : tag.ciType = .merge)
      (on : cfg.congestionMerge = true) :
      SignalCtl cfg tag p s (s.retireOldRoot cfg tag old p)
  | childDealloc (e : CAMEntry n) (found : s.getEntry tag.root = some e)
      (other : tag.root.switchId ≠ cfg.mId) (resumed : e.iportPaused p = some false)
      (dealloc : tag.ciType = .dealloc) :
      SignalCtl cfg tag p s (s.setEntry tag.root (e.setCIQDealloc p))
  | rootDealloc (e : Fin n) (own : tag.root = ⟨cfg.mId, e⟩)
      (resumed : s.upstreamPaused e p = some false) (dealloc : tag.ciType = .dealloc) :
      SignalCtl cfg tag p s (s.setRootDealloc p e)

/-! ### Deallocation -/

theorem getEntry_setEntry (s : Switch n) (root r : Spot) (e : CAMEntry n) :
    (s.setEntry root e).getEntry r = if r = root then some e else s.getEntry r := by
  simp [getEntry, setEntry, Function.update_apply]

@[simp] theorem getEntry_setEntry_same (s : Switch n) (root : Spot) (e : CAMEntry n) :
    (s.setEntry root e).getEntry root = some e := by simp [getEntry_setEntry]

abbrev PacketCtls (cfg : Config n) := ReflTransGen (PacketCtl cfg)

theorem packetCtls_preserve {I : Switch n → Prop} (step : ∀ s t, I s → PacketCtl cfg s t → I t)
    {s t : Switch n} (start : I s) (h : PacketCtls cfg s t) : I t := by
  induction h with
  | refl => exact start
  | tail _ last ih => exact step _ _ ih last

/-- A control update that leaves the records of the own root alone. -/
def EntryCtl (cfg : Config n) (s t : Switch n) : Prop :=
  PacketCtl cfg s t ∧ t.upstreamPaused = s.upstreamPaused

abbrev EntryCtls (cfg : Config n) := ReflTransGen (EntryCtl cfg)

theorem entryCtls_packet {s t : Switch n} (h : EntryCtls cfg s t) : PacketCtls cfg s t :=
  ReflTransGen.mono (fun _ _ step => step.1) s t h

theorem entryCtls_upstream {s t : Switch n} (h : EntryCtls cfg s t) :
    t.upstreamPaused = s.upstreamPaused := by
  induction h with
  | refl => rfl
  | tail _ last ih => exact last.2.trans ih

theorem deallocPort_cases {root : Spot} {s t : Switch n} {all all' : Bool} {i : Fin n}
    {e : CAMEntry n}
    (found : s.getEntry root = some e) (h : deallocPort root (s, all) i = .ok (t, all')) :
    (e.oportCiq i = none ∧ t = s ∧ all' = all) ∨
    (∃ c, e.oportCiq i = some c ∧ s.bytesInQueue i c = 0 ∧ e.oportStatus i = .resume ∧ all' = all ∧
      t = (s.sendCIPacket i (deallocTag root)).releaseCIQ root (e.setStatus i .initial) i c) ∨
    (e.oportCiq i ≠ none ∧ t = s ∧ all' = false) := by
  simp only [deallocPort, found] at h
  split at h
  · rename_i none
    simp only [Except.ok.injEq, Prod.mk.injEq] at h
    exact .inl ⟨none, h.1.symm, h.2.symm⟩
  · rename_i c ciq
    split at h
    · cases h
    · split at h
      · rename_i ready
        split at h
        · cases h
        · simp only [Except.ok.injEq, Prod.mk.injEq] at h
          exact .inr (.inl ⟨c, ciq, ready.1, ready.2, h.2.symm, h.1.symm⟩)
      · simp only [Except.ok.injEq, Prod.mk.injEq] at h
        exact .inr (.inr ⟨by simp [ciq], h.1.symm, h.2.symm⟩)

theorem getEntry_releaseCIQ (s : Switch n) (root r : Spot) (e : CAMEntry n) (p : Fin n) (c : ℕ) :
    (s.releaseCIQ root e p c).getEntry r = if r = root then some (e.setCiq p none)
      else s.getEntry r :=
  getEntry_setEntry _ _ _ _

/-- What the loop of `CheckAndSendDealloc` maintains, with the ports still to visit. -/
def DeallocLoop (cfg : Config n) (root : Spot) (s : Switch n) (e : CAMEntry n) (rest : List (Fin n))
    (acc : Switch n × Bool) : Prop :=
  EntryCtls cfg s acc.1 ∧ ∃ e', acc.1.getEntry root = some e' ∧ e'.iportPaused = e.iportPaused ∧
    (acc.2 = true → ∀ p, p ∉ rest → e'.oportCiq p = none)

theorem hasChildren_congr (cfg : Config n) {e e' : CAMEntry n}
    (h : e'.iportPaused = e.iportPaused) :
    hasChildren cfg e' = hasChildren cfg e := by simp only [hasChildren, h]

theorem deallocPort_loop {root : Spot} {s : Switch n} {e : CAMEntry n}
    (free : hasChildren cfg e = false)
    (i : Fin n) (rest : List (Fin n)) (acc acc' : Switch n × Bool)
    (before : DeallocLoop cfg root s e (i :: rest) acc) (h : deallocPort root acc i = .ok acc') :
    DeallocLoop cfg root s e rest acc' := by
  obtain ⟨t, all⟩ := acc
  obtain ⟨t', all'⟩ := acc'
  obtain ⟨steps, e', found, same, done⟩ := before
  rcases deallocPort_cases found h with ⟨none, rfl, rfl⟩ | ⟨c, ciq, empty, status, rfl, rfl⟩ |
    ⟨_, rfl, rfl⟩
  · refine ⟨steps, e', found, same, fun all p hp => ?_⟩
    rcases eq_or_ne p i with rfl | ne
    · exact none
    · exact done all p (by simp [ne, hp])
  · have free' := (hasChildren_congr cfg same).trans free
    refine ⟨steps.tail ⟨.dealloc root e' i c found ciq empty status free', rfl⟩,
      (e'.setStatus i .initial).setCiq i none, by rw [getEntry_releaseCIQ, if_pos rfl], same,
      fun all p hp => ?_⟩
    rcases eq_or_ne p i with rfl | ne
    · simp [CAMEntry.setCiq]
    · simpa [CAMEntry.setCiq, CAMEntry.setStatus, ne] using done all p (by simp [ne, hp])
  · exact ⟨steps, e', found, same, fun all => by cases all⟩

theorem checkAndSendDealloc_ctl {root : Spot} {s t : Switch n}
    (h : s.checkAndSendDealloc cfg root = .ok t) : EntryCtls cfg s t := by
  simp only [checkAndSendDealloc] at h
  split at h
  · cases h
    exact .refl
  split at h
  · cases h
  rename_i e found
  split at h
  · cases h
    exact .refl
  rename_i free
  rw [Bool.not_eq_true] at free
  obtain ⟨⟨u, all⟩, loop, h⟩ := bind_ok h
  have start : DeallocLoop cfg root s e (List.finRange n) (s, true) :=
    ⟨.refl, e, found, rfl, fun _ p hp => absurd (List.mem_finRange p) hp⟩
  obtain ⟨steps, e', found', same, done⟩ := foldlM_rest (deallocPort_loop free) start loop
  cases h
  cases all with
  | false => exact steps
  | true =>
    have free' := (hasChildren_congr cfg same).trans free
    exact steps.tail ⟨.erase root e' found' (fun p => done rfl p List.not_mem_nil) free', rfl⟩

theorem releaseEntry_ctl {root : Spot} {s : Switch n} {e : CAMEntry n}
    (found : s.getEntry root = some e) : EntryCtls cfg s (s.releaseEntry root e) := by
  unfold releaseEntry
  split
  · rename_i idle
    refine .single ⟨.erase root e found idle.1 ?_, rfl⟩
    simp [hasChildren, idle.2]
  · exact .refl

theorem releaseMergeCIQEntry_on {root : Spot} {oport : Fin n} {s t : Switch n}
    (h : s.releaseMergeCIQEntry cfg root oport = .ok t) : cfg.congestionMerge = true := by
  unfold releaseMergeCIQEntry at h
  split at h
  · cases h
  split at h
  · cases h
  · simp_all

theorem releaseMergeCIQEntry_ctl {root : Spot} {oport : Fin n} {s t : Switch n}
    (h : s.releaseMergeCIQEntry cfg root oport = .ok t) : EntryCtls cfg s t := by
  simp only [releaseMergeCIQEntry] at h
  split at h
  · cases h
  rename_i e found
  split at h
  · cases h
  rename_i checks
  have status : e.oportStatus oport = .merge := by simp_all
  split at h
  · cases h
    exact .refl
  rename_i c ciq
  split at h
  · cases h
  split at h
  · rename_i empty
    split at h
    · cases h
    · cases h
      have first : EntryCtl cfg s (s.releaseCIQ root e oport c) :=
        ⟨.freeMerged root e oport c found ciq empty status, rfl⟩
      exact .head first (releaseEntry_ctl (by rw [getEntry_releaseCIQ, if_pos rfl]))
  · cases h
    exact releaseEntry_ctl found

/-! ### Notifications -/

theorem notifyEnqueueIntoOQ_ctl (s : Switch n) (i e : Fin n) (q : ℕ) :
    PacketCtls cfg s (s.notifyEnqueueIntoOQ cfg i e q) := by
  unfold notifyEnqueueIntoOQ
  split
  · exact .refl
  rename_i gate
  split
  · rename_i check
    exact .single (.rootPause i e q (by simpa using gate) check)
  · exact .refl

theorem pauseChild_ctl {root : Spot} {s : Switch n} {e : CAMEntry n}
    (found : s.getEntry root = some e)
    (mapped : ∃ x c, s.ciqRootMap x c = some root) (i p : Fin n) :
    EntryCtls cfg s (s.pauseChild cfg root e i p) := by
  unfold pauseChild
  split
  · rename_i check
    exact .single ⟨.childPause root e i p found check mapped, rfl⟩
  · exact .refl

theorem resumeChild_ctl (cfg : Config n) {root : Spot} {s : Switch n} {e : CAMEntry n}
    (found : s.getEntry root = some e)
    (i p : Fin n) : EntryCtls cfg s (s.resumeChild cfg root e i p) := by
  unfold resumeChild
  split
  · rename_i check
    exact .single ⟨.childResume root e i p found check, rfl⟩
  · exact .refl

/-- The entry of `root` after `p` has been counted into one of its CIQs. -/
def countIn (s : Switch n) (root : Spot) (e : CAMEntry n) (p : Packet n) : Switch n :=
  s.setEntry root (e.setCounter p.inDev (add32 (e.iportCounter p.inDev) p.size))

/-- The entry of `root` after `p` has been counted out of one of its CIQs. -/
def countOut (s : Switch n) (root : Spot) (e : CAMEntry n) (p : Packet n) : Switch n :=
  s.setEntry root (e.setCounter p.inDev (sub32 (e.iportCounter p.inDev) p.size))

theorem notifyEnqueueIntoCIQ_ctl {s t : Switch n} {idx : Fin n} {q : ℕ} {p : Packet n}
    (h : s.notifyEnqueueIntoCIQ cfg idx q p = .ok t) :
    ∃ root e, s.ciqRootMap idx q = some root ∧ s.getEntry root = some e ∧
      EntryCtls cfg (s.countIn root e p) t := by
  simp only [notifyEnqueueIntoCIQ] at h
  split at h
  · cases h
  rename_i root mapped
  split at h
  · cases h
  rename_i e found
  cases h
  exact ⟨root, e, mapped, found, pauseChild_ctl (getEntry_setEntry_same _ _ _) ⟨idx, q, mapped⟩ _ _⟩

theorem notifyDequeueFromCIQ_ctl {s t : Switch n} {ifIndex : Fin n} {q : ℕ} {p : Packet n}
    (h : s.notifyDequeueFromCIQ cfg ifIndex q p = .ok t) :
    ∃ root e, s.ciqRootMap ifIndex q = some root ∧ s.getEntry root = some e ∧
      EntryCtls cfg (s.countOut root e p) t := by
  simp only [notifyDequeueFromCIQ] at h
  split at h
  · cases h
  rename_i root mapped
  split at h
  · cases h
  rename_i e found
  refine ⟨root, e, mapped, found, ?_⟩
  have resumed := resumeChild_ctl cfg (getEntry_setEntry_same s root
    (e.setCounter p.inDev (sub32 (e.iportCounter p.inDev) p.size))) p.inDev ifIndex
  split at h
  · exact resumed.trans (checkAndSendDealloc_ctl h)
  · exact resumed.trans (releaseMergeCIQEntry_ctl h)

/-! ### Signals -/

abbrev SignalCtls (cfg : Config n) (tag : CITag) (p : Fin n) :=
  ReflTransGen fun s t : Switch n => EntryCtl cfg s t ∨ SignalCtl cfg tag p s t

theorem signalCtls_preserve {I : Switch n → Prop} {tag : CITag} {p : Fin n}
    (packet : ∀ s t, I s → PacketCtl cfg s t → I t) (signal : ∀ s t, I s →
      SignalCtl cfg tag p s t → I t)
    {s t : Switch n} (start : I s) (h : SignalCtls cfg tag p s t) : I t := by
  induction h with
  | refl => exact start
  | tail _ last ih => exact last.elim (fun step => packet _ _ ih step.1) (signal _ _ ih)

theorem entryCtls_signal {tag : CITag} {p : Fin n} {s t : Switch n} (h : EntryCtls cfg s t) :
    SignalCtls cfg tag p s t := ReflTransGen.mono (fun _ _ => Or.inl) s t h

theorem entryFor_ctl (cfg : Config n) {s t : Switch n} {tag : CITag} {p : Fin n} {e : CAMEntry n}
    (type : tag.ciType = .pause ∨ tag.ciType = .merge)
    (h : s.entryFor tag = .ok (t, e)) : t.getEntry tag.root = some e ∧
    SignalCtls cfg tag p s t := by
  unfold entryFor at h
  split at h
  · rename_i found
    cases h
    exact ⟨found, .refl⟩
  · rename_i absent
    split at h
    · cases h
    · rename_i pos
      cases h
      exact ⟨by simp, .single (.inr (.create type absent (by omega)))⟩

/-- The common prefix of the pause and merge branches: register a CIQ if there is none, and set its
status and pause flag. -/
theorem signalStatus_ctl (cfg : Config n) {s : Switch n} {tag : CITag} {p : Fin n}
    {e e' : CAMEntry n} {t : Switch n} {st : CIQStatus} {b : Bool} (signal : SignalStatus tag st b)
    (found : s.getEntry tag.root = some e)
    (h : (if registers e tag.root p then s.registerRoot tag.root e p else (s, e)) = (t, e')) :
    SignalCtl cfg tag p s ((t.setEntry tag.root (e'.setStatus p st)).setPaused p (e'.oportCiq p)
      (some b)) := by
  split at h
  · rename_i fresh
    have key : e'.oportCiq p = some (s.nQueue p) := by
      rw [← (Prod.mk.inj h).2]
      simp [CAMEntry.setCiq]
    rw [key, ← (Prod.mk.inj h).1, ← (Prod.mk.inj h).2]
    exact .register e st b found fresh signal
  · rename_i known
    cases h
    exact .setStatus e st b found known signal

theorem receivePause_ctl {s t : Switch n} {tag : CITag} {p : Fin n} (type : tag.ciType = .pause)
    (h : s.receivePause cfg tag p = .ok t) : SignalCtls cfg tag p s t := by
  unfold receivePause at h
  obtain ⟨⟨s₁, e⟩, entry, h⟩ := bind_ok h
  obtain ⟨found, steps⟩ := entryFor_ctl cfg (p := p) (.inl type) entry
  cases shape : (if registers e tag.root p then s₁.registerRoot tag.root e p else (s₁, e)) with
  | mk s₂ e₂ =>
    have set := signalStatus_ctl cfg (.pause type) found shape
    simp only [shape] at h
    have steps := steps.tail (.inr set)
    split at h
    · cases h
      exact steps.tail (.inr (.startMerge _ (by simp [getEntry, setPaused, setEntry]) type))
    · cases h
      exact steps

theorem receiveDealloc_ctl {s t : Switch n} {tag : CITag} {p : Fin n} (type : tag.ciType = .dealloc)
    (h : s.receiveDealloc cfg tag p = .ok t) : SignalCtls cfg tag p s t := by
  unfold receiveDealloc at h
  split at h
  · rename_i other
    split at h
    · cases h
      exact .refl
    rename_i e found
    split at h
    · rename_i resumed
      exact .head (.inr (.childDealloc e found other resumed type))
        (entryCtls_signal (checkAndSendDealloc_ctl h))
    · cases h
      exact .refl
  · rename_i own
    split at h
    · rename_i lt
      split at h
      · rename_i resumed
        cases h
        have root : tag.root = ⟨cfg.mId, tag.root.portId⟩ := by
          rw [← not_not.mp own]
        exact .single (.inr (.rootDealloc ⟨tag.root.portId, lt⟩ root resumed type))
      · cases h
        exact .refl
    · cases h
      exact .refl

theorem receiveResume_ctl {s t : Switch n} {tag : CITag} {p : Fin n} {pick : Option (ℕ × ℕ)}
    (type : tag.ciType = .resume) (h : s.receiveResume cfg tag p pick = .ok t) :
    ∃ u pick', SignalCtls cfg tag p s u ∧ u.dequeueAndTransmit cfg p pick' = .ok t := by
  unfold receiveResume at h
  split at h
  · cases h
    exact ⟨s, none, .refl, rfl⟩
  rename_i e found
  split at h
  · cases h
    exact ⟨s, none, .refl, rfl⟩
  rename_i c ciq
  obtain ⟨u, dealloc, h⟩ := bind_ok h
  have set :
    SignalCtl cfg tag p s ((s.setEntry tag.root (e.setStatus p .resume)).setPaused p (some c)
      (some false)) := by
    rw [← ciq]
    exact .setStatus e .resume false found (by simp [registers, ciq]) (.resume (.inl type))
  exact ⟨u, pick, .head (.inr set) (entryCtls_signal (checkAndSendDealloc_ctl dealloc)), h⟩

theorem mergeOldRoot_ctl {s t : Switch n} {tag : CITag} {p : Fin n} {e : CAMEntry n}
    (found : s.getEntry tag.root = some e) (type : tag.ciType = .merge)
    (h : s.mergeOldRoot cfg tag p = .ok t) : SignalCtls cfg tag p s t := by
  unfold mergeOldRoot at h
  split at h
  · cases h
    exact .refl
  · rename_i old foundOld
    have retire : SignalCtl cfg tag p _ _ :=
      .retire e old found foundOld type (releaseMergeCIQEntry_on h)
    exact .head (.inr retire) (entryCtls_signal (releaseMergeCIQEntry_ctl h))

theorem receiveMerge_ctl {s t : Switch n} {tag : CITag} {p : Fin n} {pick : Option (ℕ × ℕ)}
    (type : tag.ciType = .merge) (h : s.receiveMerge cfg tag p pick = .ok t) :
    ∃ u, SignalCtls cfg tag p s u ∧ u.dequeueAndTransmit cfg p pick = .ok t := by
  unfold receiveMerge at h
  obtain ⟨⟨s₁, e⟩, entry, h⟩ := bind_ok h
  obtain ⟨found, steps⟩ := entryFor_ctl cfg (p := p) (.inr type) entry
  cases shape : (if registers e tag.root p then s₁.registerRoot tag.root e p else (s₁, e)) with
  | mk s₂ e₂ =>
    have set := signalStatus_ctl cfg (.resume (.inr type)) found shape
    simp only [shape] at h
    have steps := steps.tail (.inr set)
    obtain ⟨u, merged, h⟩ := bind_ok h
    refine ⟨u, ?_, h⟩
    exact steps.trans (mergeOldRoot_ctl (e := e₂.setStatus p .resume)
      (by simp [getEntry, setPaused, setEntry]) type merged)

/-- A received signal: control updates, and at most one transmission on the same device. -/
theorem receiveCI_ctl {s t : Switch n} {tag : CITag} {p : Fin n} {pick : Option (ℕ × ℕ)}
    (h : s.receiveCI cfg tag p pick = .ok t) :
    ∃ u pick', SignalCtls cfg tag p s u ∧ u.dequeueAndTransmit cfg p pick' = .ok t := by
  unfold receiveCI at h
  split at h
  · rename_i type
    exact ⟨t, none, receivePause_ctl type h, rfl⟩
  · rename_i type
    exact receiveResume_ctl type h
  · rename_i type
    exact ⟨t, none, receiveDealloc_ctl type h, rfl⟩
  · rename_i type
    obtain ⟨u, steps, h⟩ := receiveMerge_ctl type h
    exact ⟨u, pick, steps, h⟩

/-! ### The old root of a merge -/

/-- The pause flags after a merge: the old root's CIQ is not paused. -/
def unpauseOld (s : Switch n) (p : Fin n) (old : CAMEntry n) : Switch n :=
  if s.paused p (old.oportCiq p) = some true then s.setPaused p (old.oportCiq p) (some false) else s

theorem retireOldRoot_eq {s : Switch n} {tag : CITag} {e old : CAMEntry n} (p : Fin n)
    (found : s.getEntry tag.root = some e) (foundOld : s.getEntry tag.old = some old) :
    s.retireOldRoot cfg tag old p =
      (((s.unpauseOld p old).mergeUpstreams tag.root e tag.old
        (passesMerge cfg old)).setEntry tag.old
        { old.setStatus p .merge with iportPaused := fun _ => none }) := by
  by_cases same : tag.root = tag.old
  · rw [same, foundOld] at found
    obtain rfl := Option.some.inj found
    by_cases h : s.paused p (old.oportCiq p) = some true
    all_goals simp [retireOldRoot, unpauseOld, mergeUpstreams, setEntry, setPaused, getEntry, same,
      h, CAMEntry.setStatus, CAMEntry.setCIQResumes, passesMerge]
  · have ne : ¬tag.old = tag.root := fun h => same h.symm
    have found' : s.congestionEntries tag.root = some e := found
    by_cases h : s.paused p (old.oportCiq p) = some true
    all_goals
      simp [retireOldRoot, unpauseOld, mergeUpstreams, setEntry, setPaused, getEntry,
        same, found', h,
        CAMEntry.setStatus, CAMEntry.setCIQResumes, passesMerge, Function.update_comm ne]
      rfl

end Switch

end Pyrrha


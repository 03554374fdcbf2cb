import Pyrrha.Link.Flag

/-!
The downstream side of a link: what a switch records about the upstream on one device. Every control
update sends that upstream exactly the signals that change the record, because the switch holds no
entry for a root of its own.
-/

namespace Pyrrha
open Lib Relation

variable {n : ℕ} {cfg : Config n}

namespace Switch

/-- What the switch records about the upstream on device `i` for the root `r`: `upstream_paused` if
it is the root itself, `iport_paused` of the entry otherwise. -/
def record (cfg : Config n) (s : Switch n) (i : Fin n) (r : Spot) : Option Bool :=
  if r.switchId = cfg.mId then
    if h : r.portId < n then s.upstreamPaused ⟨r.portId, h⟩ i else none
  else (s.getEntry r).bind (·.iportPaused i)

/-- Whether the switch records the upstream on device `i` as paused for `r`. -/
def recordPaused (cfg : Config n) (s : Switch n) (i : Fin n) (r : Spot) : Bool :=
  decide (s.record cfg i r = some true)

/-- No entry is for a root of this switch. -/
def NoOwnEntry (cfg : Config n) (s : Switch n) : Prop := ∀ r, r.switchId = cfg.mId → s.getEntry r = none

theorem noOwn_foreign {s : Switch n} (N : NoOwnEntry cfg s) {r : Spot} {e : CAMEntry n}
    (found : s.getEntry r = some e) : r.switchId ≠ cfg.mId := by
  intro own
  rw [N r own] at found
  cases found

theorem record_own (s : Switch n) (i e : Fin n) : s.record cfg i ⟨cfg.mId, e⟩ =
    s.upstreamPaused e i := by
  simp [record]

theorem record_foreign {r : Spot} (foreign : r.switchId ≠ cfg.mId) (s : Switch n) (i : Fin n) :
    s.record cfg i r = (s.getEntry r).bind (·.iportPaused i) := if_neg foreign

theorem record_known {s : Switch n} (N : NoOwnEntry cfg s) {r : Spot} {e : CAMEntry n}
    (found : s.getEntry r = some e) (i : Fin n) : s.record cfg i r = e.iportPaused i := by
  rw [record_foreign (noOwn_foreign N found), found]
  rfl

theorem record_congr {s t : Switch n} {i : Fin n} {r : Spot}
    (upstream : ∀ e : Fin n, r = ⟨cfg.mId, e⟩ → t.upstreamPaused e i = s.upstreamPaused e i)
    (entries : t.getEntry r = s.getEntry r) : t.record cfg i r = s.record cfg i r := by
  unfold record
  split
  · rename_i own
    split
    · exact upstream _ (by rw [← own])
    · rfl
  · rw [entries]

theorem record_setEntry {root : Spot} (foreign : root.switchId ≠ cfg.mId) (s : Switch n)
    (f : CAMEntry n) (i : Fin n) (r : Spot) :
    (s.setEntry root f).record cfg i r = if r = root then f.iportPaused i
      else s.record cfg i r := by
  split
  · rename_i eq
    rw [record_foreign (eq ▸ foreign), eq, getEntry_setEntry_same]
    rfl
  · rename_i other
    exact record_congr (fun _ _ => rfl) ((getEntry_setEntry s root r f).trans (if_neg other))

theorem record_setUpstreamPaused (s : Switch n) (e x i : Fin n) (v : Option Bool) (r : Spot) :
    (s.setUpstreamPaused e x v).record cfg i r =
      if r = ⟨cfg.mId, e⟩ ∧ i = x then v else s.record cfg i r := by
  split
  · rename_i eq
    rw [eq.1, eq.2, record_own]
    exact update₂_same _ _ _ _
  · rename_i other
    refine record_congr (fun f own => update₂_of_ne _ _ ?_) rfl
    rintro ⟨rfl, rfl⟩
    exact other ⟨own, rfl⟩

/-! ### What the upstream is told -/

/-- From `s` to `t` the signals `sent` go to the upstream on device `i`, and tell it what
changes. -/
def Told (cfg : Config n) (i : Fin n) (s t : Switch n) : Prop :=
  ∃ sent, t.out i = s.out i ++ sent ∧ (∀ tag ∈ sent, tag.NamesPort) ∧
    ∀ r, t.recordPaused cfg i r = sent.foldl (fun b tag => tag.applyTo r b) (s.recordPaused cfg i r)

theorem told_trans {i : Fin n} {s t u : Switch n} (first : Told cfg i s t)
    (second : Told cfg i t u) : Told cfg i s u := by
  obtain ⟨sent, out, names, told⟩ := first
  obtain ⟨sent', out', names', told'⟩ := second
  refine ⟨sent ++ sent', by rw [out', out, List.append_assoc], ?_, fun r => ?_⟩
  · intro tag member
    exact (List.mem_append.mp member).elim (names tag) (names' tag)
  · rw [told', told, List.foldl_append]

theorem told_quiet {i : Fin n} {s t : Switch n} (out : t.out i = s.out i)
    (same : ∀ r, t.record cfg i r = some true ↔ s.record cfg i r = some true) : Told cfg i s t :=
  ⟨[], by rw [out, List.append_nil], List.forall_mem_nil _, fun r => by
    rw [List.foldl_nil, recordPaused, recordPaused, Bool.eq_iff_iff, decide_eq_true_iff,
      decide_eq_true_iff, same]⟩

theorem told_same {i : Fin n} {s t : Switch n} (out : t.out i = s.out i)
    (same : ∀ r, t.record cfg i r = s.record cfg i r) : Told cfg i s t :=
  told_quiet out fun r => by rw [same]

theorem told_tag {i : Fin n} {s t : Switch n} (tag : CITag) (names : tag.NamesPort)
    (out : t.out i = s.out i ++ [tag])
    (apply : ∀ r, t.recordPaused cfg i r = tag.applyTo r (s.recordPaused cfg i r)) :
    Told cfg i s t :=
  ⟨[tag], out, fun _ member => List.mem_singleton.mp member ▸ names, fun r => by
    rw [apply, List.foldl_cons, List.foldl_nil]⟩

/-- Entries change and signals go out, but nothing the record of the upstream on `i` depends on. -/
theorem told_setEntry {i : Fin n} {s : Switch n} (N : NoOwnEntry cfg s) {root : Spot}
    {e f : CAMEntry n} (found : s.getEntry root = some e)
    (same : f.iportPaused i = some true ↔ e.iportPaused i = some true) :
    Told cfg i s (s.setEntry root f) := by
  refine told_quiet rfl fun r => ?_
  rw [record_setEntry (noOwn_foreign N found)]
  split
  · rename_i eq
    rw [same, eq, record_known N found]
  · rfl

theorem recordPaused_same {i : Fin n} {s t : Switch n} {r : Spot}
    (same : t.record cfg i r = s.record cfg i r) :
    t.recordPaused cfg i r = s.recordPaused cfg i r := by rw [recordPaused, recordPaused, same]

theorem told_set {i x : Fin n} {s t : Switch n} (tag : CITag) (names : tag.NamesPort)
    {root : Spot} {b : Bool} (out : t.out = Function.update s.out x (s.out x ++ [tag]))
    (apply : ∀ r c, tag.applyTo r c = if root = r then b else c)
    (set : ∀ r, t.record cfg i r = if r = root ∧ i = x then some b else s.record cfg i r) :
    Told cfg i s t := by
  by_cases here : i = x
  · subst here
    refine told_tag tag names (by rw [out, Function.update_self]) fun r => ?_
    rw [apply, recordPaused, set]
    by_cases eq : r = root
    · simp [eq]
    · simp [eq, Ne.symm eq, recordPaused]
  · refine told_quiet (by rw [out, Function.update_of_ne here]) fun r => ?_
    rw [set, if_neg fun h => here h.2]

theorem told_send (i x : Fin n) (s : Switch n) {tag : CITag} (names : tag.NamesPort)
    (quiet : ∀ r b, tag.applyTo r b = b) : Told cfg i s (s.sendCIPacket x tag) := by
  by_cases here : i = x
  · subst here
    exact told_tag tag names (Function.update_self _ _ _) fun r => (quiet r _).symm
  · exact told_quiet (Function.update_of_ne here _ _) fun r => Iff.rfl

theorem record_child {s : Switch n} (N : NoOwnEntry cfg s) {root : Spot} {e : CAMEntry n}
    (found : s.getEntry root = some e) (x i : Fin n) (v : Option Bool) (r : Spot) :
    (s.setEntry root (e.setIportPaused x v)).record cfg i r =
      if r = root ∧ i = x then v else s.record cfg i r := by
  rw [record_setEntry (noOwn_foreign N found)]
  by_cases eq : r = root
  · by_cases here : i = x
    · simp [eq, here, CAMEntry.setIportPaused]
    · simp [eq, here, CAMEntry.setIportPaused, record_known N found]
  · simp [eq]

theorem hasChildren_paused {e : CAMEntry n} (free : hasChildren cfg e = false) (i : Fin n) :
    e.iportPaused i ≠ some true := by
  intro paused
  unfold hasChildren at free
  split at free
  · exact of_decide_eq_false free ⟨i, paused⟩
  · exact of_decide_eq_false free ⟨i, by simp [paused]⟩

theorem rootResume_told (i e : Fin n) (s : Switch n) (q : ℕ) :
    Told cfg i s (s.notifyDequeueFromOQ cfg e q) := by
  unfold notifyDequeueFromOQ
  split
  · exact told_quiet rfl fun r => Iff.rfl
  by_cases resumes : s.resumesUpstream cfg e q i
  · refine told_tag (resumeTag ⟨cfg.mId, e⟩) (namesPort_of (by simp [resumeTag]))
      (if_pos resumes) fun r => ?_
    rw [applyTo_resumeTag]
    by_cases eq : r = ⟨cfg.mId, e⟩
    · rw [if_pos eq.symm, eq, recordPaused, record_own]
      simp [resumes]
    · rw [if_neg (Ne.symm eq)]
      refine recordPaused_same (record_congr (fun f own => if_neg ?_) rfl)
      rintro ⟨rfl, _⟩
      exact eq own
  · refine told_same (if_neg resumes) fun r => record_congr (fun f _ => if_neg ?_) rfl
    exact fun h => resumes h.2

theorem packetCtl_told (ports : n ≤ noPort) (i : Fin n) {s t : Switch n} (N : NoOwnEntry cfg s)
    (P : PortRoots s) (h : PacketCtl cfg s t) : Told cfg i s t := by
  cases h with
  | rootPause x e q =>
    have names : (pauseTag ⟨cfg.mId, e⟩ 1).NamesPort := fun _ => by
      have below : (e : ℕ) < noPort := e.isLt.trans_le ports
      exact below.ne
    refine told_set (x := x) (b := true) (pauseTag ⟨cfg.mId, e⟩ 1) names rfl
      (fun _ _ => rfl) fun r => ?_
    exact record_setUpstreamPaused (s.sendCIPacket x _) e x i (some true) r
  | rootResume e q => exact rootResume_told i e s q
  | childPause root e x p found check mapped =>
    obtain ⟨y, c, mapped⟩ := mapped
    have names : (pauseTag root (e.hop + 1)).NamesPort := fun _ => P y c root mapped
    refine told_set (x := x) (b := true) (pauseTag root (e.hop + 1)) names rfl
      (fun _ _ => rfl) fun r => ?_
    exact record_child N found x i (some true) r
  | childResume root e x p found =>
    have names : (resumeTag root).NamesPort := namesPort_of (by simp [resumeTag])
    refine told_set (x := x) (b := false) (resumeTag root) names rfl (fun _ _ => rfl) fun r => ?_
    exact record_child N found x i (some false) r
  | dealloc root e p c found =>
    have names : (deallocTag root).NamesPort := namesPort_of (by simp [deallocTag])
    have sent : Told cfg i s (s.sendCIPacket p (deallocTag root)) :=
      told_send i p s names fun _ _ => rfl
    have N' : NoOwnEntry cfg (s.sendCIPacket p (deallocTag root)) := N
    have released := told_setEntry (i := i) (f := (e.setStatus p .initial).setCiq p none) N' found Iff.rfl
    exact told_trans sent released
  | freeMerged root e p c found => exact told_setEntry (f := e.setCiq p none) N found Iff.rfl
  | erase root e found ciqs free =>
    refine told_quiet rfl fun r => ?_
    by_cases eq : r = root
    · have gone : (s.eraseEntry root).getEntry root = none := Function.update_self _ _ _
      rw [eq, record_known N found, record_foreign (noOwn_foreign N found), gone]
      simpa using hasChildren_paused free i
    · have same : (s.eraseEntry root).record cfg i r = s.record cfg i r :=
        record_congr (fun _ _ => rfl) (Function.update_of_ne eq _ _)
      rw [same]

/-- A signal that creates entries does not name a root of this switch. -/
def ForeignRoot (cfg : Config n) (tag : CITag) : Prop :=
  tag.ciType = .pause ∨ tag.ciType = .merge → tag.root.switchId ≠ cfg.mId

theorem told_merge {i : Fin n} {s t : Switch n} {root old : Spot} {hop : ℕ} {moves : Bool}
    (out : t.out i = if moves then s.out i ++ [mergeTag root hop old] else s.out i)
    (free : moves = false → s.record cfg i old ≠ some true)
    (record : ∀ r, t.record cfg i r =
      if r = old then none else if r = root ∧ moves = true then some false else s.record cfg i r) :
    Told cfg i s t := by
  cases moves with
  | true =>
    refine told_tag (mergeTag root hop old) (namesPort_of (by simp [mergeTag])) out fun r => ?_
    rw [applyTo_mergeTag, recordPaused, record]
    by_cases is_old : r = old
    · simp [is_old]
    by_cases is_root : r = root
    · simp [is_root]
    · simp [is_old, is_root, Ne.symm is_old, Ne.symm is_root, recordPaused]
  | false =>
    refine told_quiet out fun r => ?_
    rw [record]
    split
    · rename_i eq
      simpa [eq] using free rfl
    · simp

theorem startMerge_told (i p : Fin n) {s : Switch n} (N : NoOwnEntry cfg s) {root : Spot}
    {e : CAMEntry n}
    (found : s.getEntry root = some e) : Told cfg i s (s.startMerge cfg root e p) := by
  have foreign := noOwn_foreign N found
  have out : (s.startMerge cfg root e p).out i = if decide (s.upstreamPaused p i ≠ none) then
      s.out i ++ [mergeTag root (e.hop + 1) ⟨cfg.mId, p⟩] else s.out i := rfl
  refine told_merge out ?_ ?_
  · intro unknown
    rw [record_own]
    simp_all
  intro r
  by_cases is_old : r = ⟨cfg.mId, p⟩
  · rw [if_pos is_old, is_old, record_own]
    exact if_pos rfl
  rw [if_neg is_old]
  by_cases is_root : r = root
  · subst is_root
    rw [record_foreign foreign, record_known N found]
    simp [startMerge, mergeUpstreams, setEntry, getEntry, CAMEntry.setCIQResumes]
  · rw [if_neg fun h => is_root h.1]
    refine record_congr (fun f own => if_neg ?_) ?_
    · rintro rfl
      exact is_old own
    · exact (getEntry_setEntry _ root r _).trans (if_neg is_root)

theorem retire_told (i p : Fin n) {s : Switch n} {tag : CITag} (N : NoOwnEntry cfg s)
    {e old : CAMEntry n}
    (found : s.getEntry tag.root = some e) (foundOld : s.getEntry tag.old = some old) :
    Told cfg i s (s.retireOldRoot cfg tag old p) := by
  have out : (s.retireOldRoot cfg tag old p).out i =
      if passesMerge cfg old i then s.out i ++ [mergeTag tag.root (e.hop + 1) tag.old]
        else s.out i := by
    have kept : (s.unpauseOld p old).out = s.out := by
      unfold unpauseOld
      split <;> rfl
    rw [retireOldRoot_eq p found foundOld, ← kept]
    rfl
  have upstream : (s.retireOldRoot cfg tag old p).upstreamPaused = s.upstreamPaused := by
    have kept : (s.unpauseOld p old).upstreamPaused = s.upstreamPaused := by
      unfold unpauseOld
      split <;> rfl
    rw [retireOldRoot_eq p found foundOld, ← kept]
    rfl
  refine told_merge out ?_ fun r => ?_
  · intro unmoved paused
    rw [record_known N foundOld] at paused
    simp [passesMerge, paused] at unmoved
  have entry := retire_entries cfg (p := p) found foundOld r
  by_cases is_old : r = tag.old
  · rw [if_pos is_old] at entry ⊢
    rw [record_foreign (is_old ▸ noOwn_foreign N foundOld), entry]
    rfl
  rw [if_neg is_old] at entry ⊢
  by_cases is_root : r = tag.root
  · rw [if_pos is_root] at entry
    rw [record_foreign (is_root ▸ noOwn_foreign N found), entry, is_root, record_known N found]
    simp [CAMEntry.setCIQResumes]
  · rw [if_neg is_root] at entry
    rw [if_neg fun h => is_root h.1]
    exact record_congr (fun f _ => by rw [upstream]) entry

theorem signalCtl_told (i : Fin n) {s t : Switch n} {tag : CITag} {p : Fin n} (N : NoOwnEntry cfg s)
    (foreign : ForeignRoot cfg tag) (h : SignalCtl cfg tag p s t) : Told cfg i s t := by
  cases h with
  | create type absent pos =>
    refine told_quiet rfl fun r => ?_
    rw [record_setEntry (foreign type)]
    split
    · rename_i eq
      rw [record_foreign (eq ▸ foreign type), eq, absent]
      rfl
    · rfl
  | register e st b found fresh signal =>
    refine told_same rfl fun r => ?_
    have entry := register_entries s tag.root r e p st b
    by_cases eq : r = tag.root
    · rw [if_pos eq] at entry
      rw [record_foreign (eq ▸ noOwn_foreign N found), entry, eq, record_known N found]
      rfl
    · rw [if_neg eq] at entry
      exact record_congr (fun _ _ => rfl) entry
  | setStatus e st b found known signal =>
    exact told_setEntry (f := e.setStatus p st) N found Iff.rfl
  | startMerge e found pause => exact startMerge_told i p N found
  | retire e old found foundOld => exact retire_told i p N found foundOld
  | childDealloc e found other resumed =>
    refine told_quiet rfl fun r => ?_
    rw [CAMEntry.setCIQDealloc, record_child N found]
    split
    · rename_i eq
      rw [eq.1, eq.2, record_known N found]
      simp [resumed]
    · rfl
  | rootDealloc e own resumed =>
    refine told_quiet rfl fun r => ?_
    rw [setRootDealloc, record_setUpstreamPaused]
    split
    · rename_i eq
      rw [eq.1, eq.2, record_own]
      simp [resumed]
    · rfl

/-! ### Runs -/

theorem noOwn_setEntry {s : Switch n} (N : NoOwnEntry cfg s) {root : Spot}
    (foreign : root.switchId ≠ cfg.mId) (f : CAMEntry n) : NoOwnEntry cfg (s.setEntry root f) := by
  intro r own
  rw [getEntry_setEntry, if_neg]
  · exact N r own
  · rintro rfl
    exact foreign own

theorem packetCtl_noOwn {s t : Switch n} (N : NoOwnEntry cfg s) (h : PacketCtl cfg s t) :
    NoOwnEntry cfg t := by
  cases h with
  | rootPause => exact N
  | rootResume e q =>
    unfold notifyDequeueFromOQ
    split <;> exact N
  | childPause root e x p found => exact noOwn_setEntry N (noOwn_foreign N found) _
  | childResume root e x p found => exact noOwn_setEntry N (noOwn_foreign N found) _
  | dealloc root e p c found => exact noOwn_setEntry N (noOwn_foreign N found) _
  | freeMerged root e p c found => exact noOwn_setEntry N (noOwn_foreign N found) _
  | erase root e found =>
    intro r own
    by_cases eq : r = root
    · rw [eq]
      exact Function.update_self _ _ _
    · exact (Function.update_of_ne eq _ _).trans (N r own)

theorem signalCtl_noOwn {s t : Switch n} {tag : CITag} {p : Fin n} (N : NoOwnEntry cfg s)
    (foreign : ForeignRoot cfg tag) (h : SignalCtl cfg tag p s t) : NoOwnEntry cfg t := by
  cases h with
  | create type => exact noOwn_setEntry N (foreign type) _
  | register e st b found =>
    intro r own
    have ne : r ≠ tag.root := fun eq => noOwn_foreign N found (eq ▸ own)
    rw [register_entries, if_neg ne]
    exact N r own
  | setStatus e st b found => exact noOwn_setEntry N (noOwn_foreign N found) _
  | startMerge e found => exact noOwn_setEntry N (noOwn_foreign N found) _
  | retire e old found foundOld =>
    intro r own
    rw [retire_entries cfg found foundOld, if_neg, if_neg]
    · exact N r own
    · exact fun eq => noOwn_foreign N found (eq ▸ own)
    · exact fun eq => noOwn_foreign N foundOld (eq ▸ own)
  | childDealloc e found => exact noOwn_setEntry N (noOwn_foreign N found) _
  | rootDealloc => exact N

/-- The downstream switch after it was in state `s`. -/
structure TellsSince (cfg : Config n) (i : Fin n) (s t : Switch n) : Prop where
  noOwn : NoOwnEntry cfg t
  roots : PortRoots t
  told : Told cfg i s t

theorem told_control (ports : n ≤ noPort) (i : Fin n) (s₀ : Switch n) :
    ControlInvariant cfg (fun tag _ => ForeignRoot cfg tag) (TellsSince cfg i s₀) where
  same before same := by
    have entries : ∀ r, getEntry _ r = getEntry _ r := fun r => congrFun same.entries r
    refine ⟨fun r own => (entries r).trans (before.noOwn r own), portRoots_same before.roots same,
      told_trans before.told (told_same ?_ fun r => ?_)⟩
    · rw [same.out]
    · exact record_congr (fun e _ => by rw [same.upstreamPaused]) (entries r)
  packet _ before h := ⟨packetCtl_noOwn before.noOwn h, packetCtl_portRoots before.roots h,
    told_trans before.told (packetCtl_told ports i before.noOwn before.roots h)⟩
  signal _ before foreign h :=
    ⟨signalCtl_noOwn before.noOwn foreign h, signalCtl_portRoots before.roots h,
    told_trans before.told (signalCtl_told i before.noOwn foreign h)⟩
  count x v before found :=
    ⟨noOwn_setEntry before.noOwn (noOwn_foreign before.noOwn found) _, before.roots,
    told_trans before.told (told_setEntry (f := CAMEntry.setCounter _ x v) before.noOwn found Iff.rfl)⟩

theorem told_step (ports : n ≤ noPort) (i : Fin n) {s t : Switch n} {ev : Event n} (T : Tables s)
    (N : NoOwnEntry cfg s) (P : PortRoots s)
    (foreign : ∀ tag p pick, ev = .receiveCI tag p pick → ForeignRoot cfg tag)
    (h : s.step cfg ev = .ok t) : TellsSince cfg i s t :=
  control_step (told_control ports i s) T foreign ⟨N, P, told_same rfl fun _ => rfl⟩ h

end Switch

end Pyrrha

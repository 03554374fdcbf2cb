import Pyrrha.Switch.Invariant

/-!
The upstream side of a link: whether the CIQ of a root on a port is paused. Only signals received on
this port change it, each to the value it carries, because a CIQ is never released while it is
paused.
-/

namespace Pyrrha
open Lib Relation

variable {n : ℕ} {cfg : Config n}

namespace Switch

/-- The pause flag of the CIQ of `r` on `p`; no CIQ is not paused. -/
def flag (s : Switch n) (p : Fin n) (r : Spot) : Bool :=
  match s.getEntry r with
  | none => false
  | some e =>
    match e.oportCiq p with
    | none => false
    | some c => decide (s.paused p (some c) = some true)

/-! ### Pause flags agree with the status of their port -/

/-- The pause flags of the CIQs of `e` say what its statuses say. -/
def AgreesEntry (s : Switch n) (e : CAMEntry n) : Prop :=
  ∀ p c, e.oportCiq p = some c → (s.paused p (some c) = some true ↔ e.oportStatus p = .pause)

def StatusAgrees (s : Switch n) : Prop := ∀ r e, s.getEntry r = some e → AgreesEntry s e

theorem agrees_update {s t : Switch n} (A : StatusAgrees s)
    (entries : ∀ r f, t.getEntry r = some f → AgreesEntry t f ∨ ∃ e, s.getEntry r = some e ∧
      f.oportCiq = e.oportCiq ∧ f.oportStatus = e.oportStatus ∧
      ∀ p c, e.oportCiq p = some c → t.paused p (some c) = s.paused p (some c)) :
      StatusAgrees t := by
  intro r f found
  rcases entries r f found with agrees | ⟨e, found₀, ciq, status, kept⟩
  · exact agrees
  · intro p c at_c
    rw [ciq] at at_c
    rw [kept p c at_c, status]
    exact A r e found₀ p c at_c

theorem agrees_setEntry {s : Switch n} (A : StatusAgrees s) {root : Spot} {e f : CAMEntry n}
    (found : s.getEntry root = some e) (ciq : f.oportCiq = e.oportCiq)
    (status : f.oportStatus = e.oportStatus) : StatusAgrees (s.setEntry root f) := by
  refine agrees_update A fun r g found' => .inr ?_
  rw [getEntry_setEntry] at found'
  split at found'
  · rename_i eq
    cases found'
    exact ⟨e, by rw [eq, found], ciq, status, fun _ _ _ => rfl⟩
  · exact ⟨g, found', rfl, rfl, fun _ _ _ => rfl⟩

theorem agrees_same {s t : Switch n} (A : StatusAgrees s)
    (entries : t.congestionEntries = s.congestionEntries)
    (paused : t.paused = s.paused) : StatusAgrees t :=
  agrees_update A fun r f found => .inr ⟨f, by rw [getEntry, ← entries]; exact found, rfl, rfl,
    fun _ _ _ => by rw [paused]⟩

theorem ciq_other {s : Switch n} (T : Tables s) {root r : Spot} {e g : CAMEntry n}
    {p : Fin n} {c d : ℕ}
    (found : s.getEntry root = some e) (ciq : e.oportCiq p = some c) (ne : r ≠ root)
    (found' : s.getEntry r = some g) (ciq' : g.oportCiq p = some d) : d ≠ c := by
  rintro rfl
  have here := tables_map T found ciq
  rw [tables_map T found' ciq'] at here
  exact ne (Option.some.inj here)

theorem agrees_release {s : Switch n} (T : Tables s) (A : StatusAgrees s) {root : Spot}
    {e f : CAMEntry n}
    {p : Fin n} {c : ℕ} (found : s.getEntry root = some e) (ciq : e.oportCiq p = some c)
    (same : f.oportCiq = e.oportCiq) (status : ∀ x, x ≠ p → f.oportStatus x = e.oportStatus x) :
    StatusAgrees (s.releaseCIQ root f p c) := by
  refine agrees_update A fun r g found' => ?_
  have paused : ∀ x d, ¬(x = p ∧ d = c) → (s.releaseCIQ root f p c).paused x (some d) =
      s.paused x (some d) :=
    fun x d other => update₂_of_ne _ _ fun h => other ⟨h.1, Option.some.inj h.2⟩
  rw [getEntry_releaseCIQ] at found'
  split at found'
  · cases found'
    refine .inl fun x d at_d => ?_
    have ne : x ≠ p := by
      rintro rfl
      simp [CAMEntry.setCiq] at at_d
    rw [paused x d fun h => ne h.1]
    have before : e.oportCiq x = some d := by
      rw [← same]
      simpa [CAMEntry.setCiq, ne] using at_d
    rw [A root e found x d before, ← status x ne]
    rfl
  · rename_i other
    refine .inr ⟨g, found', rfl, rfl, fun x d at_d => paused x d ?_⟩
    rintro ⟨rfl, rfl⟩
    exact ciq_other T found ciq other found' at_d rfl

theorem packetCtl_agrees {s t : Switch n} (T : Tables s) (A : StatusAgrees s)
    (h : PacketCtl cfg s t) : StatusAgrees t := by
  cases h with
  | rootPause => exact agrees_same A rfl rfl
  | rootResume e q =>
    unfold notifyDequeueFromOQ
    split <;> exact agrees_same A rfl rfl
  | childPause root e i p found =>
    exact agrees_same (agrees_setEntry (f := e.setCIQPause i) A found rfl rfl) rfl rfl
  | childResume root e i p found =>
    exact agrees_same (agrees_setEntry (f := e.setCIQResume i) A found rfl rfl) rfl rfl
  | dealloc root e p c found ciq =>
    have released := agrees_release T A (f := e.setStatus p .initial) found ciq rfl
      fun x ne => by simp [CAMEntry.setStatus, ne]
    exact agrees_same released rfl rfl
  | freeMerged root e p c found ciq => exact agrees_release T A found ciq rfl fun _ _ => rfl
  | erase root e found =>
    refine agrees_update A fun r f found' => .inr ?_
    simp only [getEntry, eraseEntry, Function.update_apply] at found'
    split at found'
    · cases found'
    · exact ⟨f, found', rfl, rfl, fun _ _ _ => rfl⟩

theorem signalStatus_iff {tag : CITag} {st : CIQStatus} {b : Bool} (h : SignalStatus tag st b) :
    b = true ↔ st = .pause := by
  cases h <;> simp

theorem agrees_set {s t : Switch n} (A : StatusAgrees s) {root : Spot} {p : Fin n}
    {e f : CAMEntry n} {c : ℕ} {b : Bool} (found : s.getEntry root = some e)
    (ciq : f.oportCiq = Function.update e.oportCiq p (some c)) (set : b = true ↔
      f.oportStatus p = .pause)
    (status : ∀ x, x ≠ p → f.oportStatus x = e.oportStatus x)
    (unused : ∀ r g, r ≠ root → s.getEntry r = some g → g.oportCiq p ≠ some c)
    (entries : ∀ r, t.getEntry r = if r = root then some f else s.getEntry r)
    (paused : t.paused = update₂ s.paused p (some c) (some b)) : StatusAgrees t := by
  have kept : ∀ x d, ¬(x = p ∧ d = c) → t.paused x (some d) = s.paused x (some d) := by
    intro x d other
    rw [paused]
    exact update₂_of_ne _ _ fun h => other ⟨h.1, Option.some.inj h.2⟩
  refine agrees_update A fun r g found' => ?_
  rw [entries] at found'
  split at found'
  · cases found'
    refine .inl fun x d at_d => ?_
    rw [ciq] at at_d
    by_cases here : x = p
    · subst here
      rw [Function.update_self, Option.some.injEq] at at_d
      rw [paused, ← at_d, update₂_same]
      simpa using set
    · rw [Function.update_of_ne here] at at_d
      rw [kept x d fun h => here h.1, status x here]
      exact A root e found x d at_d
  · rename_i other
    refine .inr ⟨g, found', rfl, rfl, fun x d at_d => kept x d ?_⟩
    rintro ⟨rfl, rfl⟩
    exact unused r g other found' at_d

theorem unpauseOld_entries (s : Switch n) (p : Fin n) (old : CAMEntry n) :
    (s.unpauseOld p old).congestionEntries = s.congestionEntries := by
  unfold unpauseOld
  split <;> rfl

theorem unpauseOld_paused (s : Switch n) {p x : Fin n} {old : CAMEntry n} {d : ℕ}
    (other : ¬(x = p ∧ old.oportCiq p = some d)) :
    (s.unpauseOld p old).paused x (some d) = s.paused x (some d) := by
  unfold unpauseOld
  split
  · exact update₂_of_ne _ _ fun h => other ⟨h.1, h.2.symm⟩
  · rfl

theorem unpauseOld_released (s : Switch n) (p : Fin n) {old : CAMEntry n} {d : ℕ}
    (ciq : old.oportCiq p = some d) : (s.unpauseOld p old).paused p (some d) ≠ some true := by
  unfold unpauseOld
  rw [ciq]
  split
  · simp [setPaused]
  · assumption

theorem retire_entries (cfg : Config n) {s : Switch n} {tag : CITag}
    {e old : CAMEntry n} {p : Fin n}
    (found : s.getEntry tag.root = some e) (foundOld : s.getEntry tag.old = some old) (r : Spot) :
    (s.retireOldRoot cfg tag old p).getEntry r =
      if r = tag.old then some { old.setStatus p .merge with iportPaused := fun _ => none }
      else if r = tag.root then some (e.setCIQResumes (passesMerge cfg old)) else s.getEntry r := by
  rw [retireOldRoot_eq p found foundOld]
  simp only [getEntry, setEntry, mergeUpstreams, unpauseOld_entries, Function.update_apply]

theorem agrees_retire {s : Switch n} (T : Tables s) (A : StatusAgrees s) {tag : CITag}
    {e old : CAMEntry n}
    {p : Fin n} (found : s.getEntry tag.root = some e) (foundOld : s.getEntry tag.old = some old) :
    StatusAgrees (s.retireOldRoot cfg tag old p) := by
  have paused : (s.retireOldRoot cfg tag old p).paused = (s.unpauseOld p old).paused := by
    rw [retireOldRoot_eq p found foundOld]
    rfl
  have kept : ∀ r g, r ≠ tag.old → s.getEntry r = some g → ∀ x d, g.oportCiq x = some d →
      (s.retireOldRoot cfg tag old p).paused x (some d) = s.paused x (some d) := by
    intro r g other found' x d at_d
    rw [paused]
    refine unpauseOld_paused s ?_
    rintro ⟨rfl, at_old⟩
    exact ciq_other T foundOld at_old other found' at_d rfl
  refine agrees_update A fun r g found' => ?_
  rw [retire_entries cfg found foundOld] at found'
  split at found'
  · cases found'
    refine .inl fun x d at_d => ?_
    have at_old : old.oportCiq x = some d := at_d
    rw [paused]
    by_cases here : x = p
    · subst here
      simp [CAMEntry.setStatus, unpauseOld_released s x at_old]
    · rw [unpauseOld_paused s fun h => here h.1]
      simpa [CAMEntry.setStatus, here] using A tag.old old foundOld x d at_old
  · rename_i other
    split at found'
    · rename_i eq
      cases found'
      subst eq
      exact .inr ⟨e, found, rfl, rfl, kept tag.root e other found⟩
    · exact .inr ⟨g, found', rfl, rfl, kept r g other found'⟩

theorem signalCtl_agrees {s t : Switch n} {tag : CITag} {p : Fin n} (T : Tables s)
    (A : StatusAgrees s) (h : SignalCtl cfg tag p s t) : StatusAgrees t := by
  cases h with
  | create type absent pos =>
    refine agrees_update A fun r g found => ?_
    rw [getEntry_setEntry] at found
    split at found
    · cases found
      exact .inl fun x d at_d => by cases at_d
    · exact .inr ⟨g, found, rfl, rfl, fun _ _ _ => rfl⟩
  | register e st b found fresh signal =>
    refine agrees_set A (f := (e.setCiq p (some (s.nQueue p))).setStatus p st) found rfl ?_ ?_ ?_
      (fun r => ?_) rfl
    · simpa [CAMEntry.setStatus] using signalStatus_iff signal
    · intro x ne
      simp [CAMEntry.setStatus, CAMEntry.setCiq, ne]
    · intro r g _ found' at_new
      have := (T.range p (s.nQueue p) r (tables_map T found' at_new)).2
      omega
    · exact register_entries s tag.root r e p st b
  | setStatus e st b found known signal =>
    cases ciq : e.oportCiq p with
    | none =>
      refine agrees_update A fun r g found' => ?_
      rw [show ∀ u : Switch n, (u.setPaused p none (some b)).getEntry r =
        u.getEntry r from fun _ => rfl, getEntry_setEntry] at found'
      split at found'
      · cases found'
        refine .inl fun x d at_d => ?_
        have ne : x ≠ p := by
          rintro rfl
          cases ciq.symm.trans at_d
        have at_e : e.oportCiq x = some d := at_d
        simpa [CAMEntry.setStatus, setPaused, setEntry, update₂_apply, ne] using
          A tag.root e found x d at_e
      · exact .inr ⟨g, found', rfl, rfl, fun x d _ => update₂_of_ne _ _ (by simp)⟩
    | some c =>
      refine agrees_set A (f := e.setStatus p st) found ?_ ?_ ?_ ?_ (fun r => ?_) rfl
      · simp [CAMEntry.setStatus, ← ciq]
      · simpa [CAMEntry.setStatus] using signalStatus_iff signal
      · intro x ne
        simp [CAMEntry.setStatus, ne]
      · intro r g other found' at_c
        exact ciq_other T found ciq other found' at_c rfl
      · exact getEntry_setEntry s tag.root r _
  | startMerge e found pause =>
    exact agrees_same (agrees_setEntry (f := e.setCIQResumes _) A found rfl rfl) rfl rfl
  | retire e old found foundOld => exact agrees_retire T A found foundOld
  | childDealloc e found =>
    exact agrees_setEntry (f := e.setCIQDealloc p) A found rfl rfl
  | rootDealloc => exact agrees_same A rfl rfl

theorem agrees_control : ControlInvariant cfg (fun _ _ => True) StatusAgrees where
  same A same := agrees_same A same.entries same.paused
  packet T A h := packetCtl_agrees T A h
  signal T A _ h := signalCtl_agrees T A h
  count _ _ A found := agrees_setEntry A found rfl rfl

/-! ### Roots without a port -/

/-- Every root with a CIQ names a port: no CIQ is registered for the sentinel. -/
def PortRoots (s : Switch n) : Prop := ∀ p c r, s.ciqRootMap p c = some r → r.portId ≠ noPort

theorem portRoots_release {s : Switch n} (P : PortRoots s) (root : Spot) (e : CAMEntry n)
    (p : Fin n) (c : ℕ) : PortRoots (s.releaseCIQ root e p c) := by
  intro x d r mapped
  have before : update₂ s.ciqRootMap p c none x d = some r := mapped
  by_cases here : x = p ∧ d = c
  · rw [here.1, here.2, update₂_same] at before
    cases before
  · rw [update₂_of_ne _ _ here] at before
    exact P x d r before

theorem packetCtl_portRoots {s t : Switch n} (P : PortRoots s) (h : PacketCtl cfg s t) :
    PortRoots t := by
  cases h with
  | rootPause => exact P
  | rootResume e q =>
    unfold notifyDequeueFromOQ
    split <;> exact P
  | childPause => exact P
  | childResume => exact P
  | dealloc root e p c =>
      exact portRoots_release (s := s.sendCIPacket p (deallocTag root)) P root _ p c
  | freeMerged root e p c => exact portRoots_release P root e p c
  | erase => exact P

theorem signalCtl_portRoots {s t : Switch n} {tag : CITag} {p : Fin n} (P : PortRoots s)
    (h : SignalCtl cfg tag p s t) : PortRoots t := by
  cases h with
  | create => exact P
  | register e st b found fresh signal =>
    intro x d r mapped
    have before : update₂ s.ciqRootMap p (s.nQueue p) (some tag.root) x d = some r := mapped
    by_cases here : x = p ∧ d = s.nQueue p
    · rw [here.1, here.2, update₂_same] at before
      cases before
      exact of_decide_eq_true (Bool.and_eq_true_iff.mp fresh).1
    · rw [update₂_of_ne _ _ here] at before
      exact P x d r before
  | setStatus => exact P
  | startMerge => exact P
  | retire e old found foundOld =>
    rw [retireOldRoot_eq p found foundOld]
    have kept : (s.unpauseOld p old).ciqRootMap = s.ciqRootMap := by
      unfold unpauseOld
      split <;> rfl
    intro x d r mapped
    exact P x d r ((congrFun₂ kept x d).symm.trans mapped)
  | childDealloc => exact P
  | rootDealloc => exact P

theorem portRoots_same {s t : Switch n} (P : PortRoots s) (same : SameControl s t) : PortRoots t :=
  fun x d r mapped => P x d r ((congrFun₂ same.ciqRootMap x d).symm.trans mapped)

theorem portRoots_control : ControlInvariant cfg (fun _ _ => True) PortRoots where
  same := portRoots_same
  packet _ P h := packetCtl_portRoots P h
  signal _ P _ h := signalCtl_portRoots P h
  count _ _ P _ := P

theorem flag_noPort {s : Switch n} (T : Tables s) (P : PortRoots s) {r : Spot}
    (none : r.portId = noPort) (p : Fin n) : s.flag p r = false := by
  unfold flag
  split
  · rfl
  rename_i e found
  split
  · rfl
  rename_i c ciq
  exact absurd none (P p c r (tables_map T found ciq))

end Switch

/-! ### What changes a flag -/

/-- The status of the CIQ on `p`, if there is one, is that of a paused one. -/
def CAMEntry.pausedOn (e : CAMEntry n) (p : Fin n) : Bool :=
  (e.oportCiq p).isSome && decide (e.oportStatus p = .pause)

/-- The flag that signal `tag` leaves for `r` if it was `b`. -/
def CITag.applyTo (tag : CITag) (r : Spot) (b : Bool) : Bool :=
  match tag.ciType with
  | .pause => if tag.root = r then true else b
  | .resume => if tag.root = r then false else b
  | .merge => if tag.root = r ∨ tag.old = r then false else b
  | .dealloc => b

@[simp] theorem applyTo_pauseTag (root r : Spot) (hop : ℕ) (b : Bool) :
    (pauseTag root hop).applyTo r b = if root = r then true else b := rfl

@[simp] theorem applyTo_resumeTag (root r : Spot) (b : Bool) :
    (resumeTag root).applyTo r b = if root = r then false else b := rfl

@[simp] theorem applyTo_mergeTag (root old r : Spot) (hop : ℕ) (b : Bool) :
    (mergeTag root hop old).applyTo r b = if root = r ∨ old = r then false else b := rfl

@[simp] theorem applyTo_deallocTag (root r : Spot) (b : Bool) : (deallocTag root).applyTo r b = b :=
  rfl

/-- A pause is for a root with a port. -/
def CITag.NamesPort (tag : CITag) : Prop := tag.ciType = .pause → tag.root.portId ≠ noPort

theorem namesPort_of {tag : CITag} (other : tag.ciType ≠ .pause) : tag.NamesPort :=
  fun type => absurd type other

theorem applyTo_noPort {tag : CITag} (names : tag.NamesPort) {r : Spot} (none : r.portId = noPort) :
    tag.applyTo r false = false := by
  unfold CITag.applyTo
  split
  · rename_i type
    refine if_neg fun here => names type ?_
    rw [here, none]
  · simp
  · simp
  · rfl

namespace Switch

def statusPaused (s : Switch n) (p : Fin n) (r : Spot) : Bool := (s.getEntry r).any (·.pausedOn p)

theorem flag_status {s : Switch n} (A : StatusAgrees s) (p : Fin n) (r : Spot) :
    s.flag p r = s.statusPaused p r := by
  unfold flag statusPaused
  split
  · rename_i absent
    simp [absent]
  rename_i e found
  split
  · rename_i none
    simp [found, CAMEntry.pausedOn, none]
  · rename_i c ciq
    simp [found, CAMEntry.pausedOn, ciq, A r e found p c ciq]

theorem status_setEntry (s : Switch n) (root r : Spot) (f : CAMEntry n) (p : Fin n) :
    (s.setEntry root f).statusPaused p r = if r = root then f.pausedOn p
      else s.statusPaused p r := by
  unfold statusPaused
  rw [getEntry_setEntry]
  split <;> rfl

theorem status_same {s : Switch n} {root : Spot} {e f : CAMEntry n} {p : Fin n}
    (found : s.getEntry root = some e) (same : f.pausedOn p = e.pausedOn p) (r : Spot) :
    (s.setEntry root f).statusPaused p r = s.statusPaused p r := by
  rw [status_setEntry]
  split
  · rename_i eq
    simp [statusPaused, eq, found, same]
  · rfl

theorem status_release {s : Switch n} {root : Spot} {e f : CAMEntry n} {x : Fin n}
    {c : ℕ} (p : Fin n) (found : s.getEntry root = some e) (free : e.oportStatus x ≠ .pause)
    (ciq : f.oportCiq = e.oportCiq)
    (status : ∀ y, y ≠ x → f.oportStatus y = e.oportStatus y) (r : Spot) :
    (s.releaseCIQ root f x c).statusPaused p r = s.statusPaused p r := by
  refine (status_same (s := s) (f := f.setCiq x none) found ?_ r :)
  by_cases here : p = x
  · subst here
    simp [CAMEntry.pausedOn, CAMEntry.setCiq, free]
  · simp [CAMEntry.pausedOn, CAMEntry.setCiq, here, ciq, status p here]

/-- A CIQ is released only when it is not paused, so packets change no flag. -/
theorem packetCtl_status {s t : Switch n} (h : PacketCtl cfg s t) (p : Fin n) (r : Spot) :
    t.statusPaused p r = s.statusPaused p r := by
  cases h with
  | rootPause => rfl
  | rootResume e q =>
    unfold notifyDequeueFromOQ
    split <;> rfl
  | childPause root e i x found => exact status_same (f := e.setCIQPause i) found rfl r
  | childResume root e i x found => exact status_same (f := e.setCIQResume i) found rfl r
  | dealloc root e x c found ciq empty status =>
    have free : e.oportStatus x ≠ .pause := by simp [status]
    have same : ∀ y, y ≠ x → (e.setStatus x .initial).oportStatus y = e.oportStatus y :=
      fun y ne => by
      simp [CAMEntry.setStatus, ne]
    exact status_release (f := e.setStatus x .initial) (c := c) p found free rfl same r
  | freeMerged root e x c found ciq empty status =>
    exact status_release p found (by simp [status]) rfl (fun _ _ => rfl) r
  | erase root e found ciqs =>
    simp only [statusPaused, getEntry, eraseEntry, Function.update_apply]
    split
    · rename_i eq
      have found : s.congestionEntries root = some e := found
      simp [eq, found, CAMEntry.pausedOn, ciqs p]
    · rfl

theorem signalCtl_elsewhere {s t : Switch n} {tag : CITag} {p x : Fin n} (other : x ≠ p)
    (h : SignalCtl cfg tag x s t) (r : Spot) : t.statusPaused p r = s.statusPaused p r := by
  have ne : p ≠ x := fun h => other h.symm
  cases h with
  | create type absent pos =>
    rw [status_setEntry]
    split
    · rename_i eq
      simp [eq, statusPaused, absent, CAMEntry.pausedOn]
    · rfl
  | register e st b found fresh signal =>
    have same : ((e.setCiq x (some (s.nQueue x))).setStatus x st).pausedOn p = e.pausedOn p := by
      simp [CAMEntry.pausedOn, CAMEntry.setCiq, CAMEntry.setStatus, ne]
    rw [← status_same found same r, statusPaused, register_entries, statusPaused, getEntry_setEntry]
  | setStatus e st b found known signal =>
    refine (status_same (f := e.setStatus x st) found ?_ r :)
    simp [CAMEntry.pausedOn, CAMEntry.setStatus, ne]
  | startMerge e found pause => exact status_same (f := e.setCIQResumes _) found rfl r
  | retire e old found foundOld =>
    unfold statusPaused
    rw [retire_entries cfg found foundOld]
    split
    · rename_i eq
      simp [eq, foundOld, CAMEntry.pausedOn, CAMEntry.setStatus, ne]
    · split
      · rename_i eq
        rw [eq, found]
        rfl
      · rfl
  | childDealloc e found => exact status_same (f := e.setCIQDealloc x) found rfl r
  | rootDealloc => rfl

theorem status_control (p : Fin n) (r : Spot) (b : Bool) :
    ControlInvariant cfg (fun _ x => x ≠ p) (fun s => s.statusPaused p r = b) where
  same before same := by
    rw [← before, statusPaused, statusPaused, getEntry, getEntry, same.entries]
  packet _ before h := (packetCtl_status h p r).trans before
  signal _ before other h := (signalCtl_elsewhere other h r).trans before
  count i v before found := (status_same (f := CAMEntry.setCounter _ i v) found rfl r).trans before

/-! ### Signals on the port itself -/

theorem status_known {s : Switch n} {r : Spot} {e : CAMEntry n} (found : s.getEntry r = some e)
    (p : Fin n) : s.statusPaused p r = e.pausedOn p := by simp [statusPaused, found]

theorem status_set {s t : Switch n} {tag : CITag} {p : Fin n} {e e' : CAMEntry n} {st : CIQStatus}
    {b : Bool} {r : Spot} (port : r.portId ≠ noPort) (signal : SignalStatus tag st b)
    (h : (if registers e tag.root p then s.registerRoot tag.root e p else (s, e)) = (t, e')) :
    ((t.setEntry tag.root (e'.setStatus p st)).setPaused p (e'.oportCiq p)
      (some b)).statusPaused p r =
      if tag.root = r then b else s.statusPaused p r := by
  refine (status_setEntry t tag.root r (e'.setStatus p st) p).trans ?_
  by_cases eq : r = tag.root
  · rw [if_pos eq, if_pos eq.symm]
    have known : e'.oportCiq p ≠ none := by
      split at h
      · rw [← (Prod.mk.inj h).2]
        simp [CAMEntry.setCiq]
      · rename_i not
        rw [← (Prod.mk.inj h).2]
        simpa [registers, ← eq, port] using not
    rw [Bool.eq_iff_iff, signalStatus_iff signal]
    simp [CAMEntry.pausedOn, CAMEntry.setStatus, Option.isSome_iff_ne_none, known]
  · rw [if_neg eq, if_neg (Ne.symm eq)]
    split at h
    · rw [← (Prod.mk.inj h).1]
      exact (status_setEntry s tag.root r _ p).trans (if_neg eq)
    · rw [← (Prod.mk.inj h).1]

theorem status_entryFor {s t : Switch n} {tag : CITag} {e : CAMEntry n}
    (h : s.entryFor tag = .ok (t, e))
    (p : Fin n) (r : Spot) : t.statusPaused p r = s.statusPaused p r := by
  unfold entryFor at h
  split at h
  · cases h
    rfl
  rename_i absent
  split at h
  · cases h
  cases h
  rw [status_setEntry]
  split
  · rename_i eq
    simp [eq, statusPaused, absent, CAMEntry.pausedOn]
  · rfl

theorem entryCtls_status {s t : Switch n} (h : EntryCtls cfg s t) (p : Fin n) (r : Spot) :
    t.statusPaused p r = s.statusPaused p r := by
  induction h with
  | refl => rfl
  | tail _ last ih => exact (packetCtl_status last.1 p r).trans ih

theorem status_transmit {s t : Switch n} {dev p : Fin n} {pick : Option (ℕ × ℕ)} {r : Spot}
    (T : Tables s)
    (h : s.dequeueAndTransmit cfg dev pick = .ok t) : t.statusPaused p r = s.statusPaused p r :=
  control_transmit (status_control p r _) T rfl h

theorem receivePause_status {s t : Switch n} {tag : CITag} {p : Fin n} {r : Spot}
    (port : r.portId ≠ noPort) (type : tag.ciType = .pause) (h : s.receivePause cfg tag p = .ok t) :
    t.statusPaused p r = tag.applyTo r (s.statusPaused p r) := by
  unfold receivePause at h
  obtain ⟨⟨s₁, e⟩, entry, h⟩ := bind_ok h
  cases shape : (if registers e tag.root p then s₁.registerRoot tag.root e p else (s₁, e)) with
  | mk s₂ e₂ =>
    have set := status_set port (.pause type) shape
    rw [status_entryFor entry] at set
    have apply : tag.applyTo r (s.statusPaused p r) = if tag.root = r then true
        else s.statusPaused p r := by
      simp only [CITag.applyTo, type]
    rw [apply, ← set]
    simp only [shape] at h
    split at h
    · cases h
      have found : ((s₂.setEntry tag.root (e₂.setStatus p .pause)).setPaused p (e₂.oportCiq p)
          (some true)).getEntry tag.root = some (e₂.setStatus p .pause) := by
        simp [getEntry, setPaused, setEntry]
      exact status_same (f := CAMEntry.setCIQResumes _ _) found rfl r
    · cases h
      rfl

theorem receiveResume_status {s t : Switch n} {tag : CITag} {p : Fin n}
    {pick : Option (ℕ × ℕ)} {r : Spot}
    (T : Tables s) (type : tag.ciType = .resume) (h : s.receiveResume cfg tag p pick = .ok t) :
    t.statusPaused p r = tag.applyTo r (s.statusPaused p r) := by
  simp only [CITag.applyTo, type]
  unfold receiveResume at h
  split at h
  · rename_i absent
    cases h
    split
    · rename_i eq
      simp [statusPaused, ← eq, absent]
    · rfl
  rename_i e found
  split at h
  · rename_i none
    cases h
    split
    · rename_i eq
      rw [← eq, status_known found, CAMEntry.pausedOn, none]
      rfl
    · rfl
  rename_i c ciq
  obtain ⟨u, dealloc, h⟩ := bind_ok h
  have set :
    SignalCtl cfg tag p s ((s.setEntry tag.root (e.setStatus p .resume)).setPaused p (some c)
      (some false)) := by
    rw [← ciq]
    exact .setStatus e .resume false found (by simp [registers, ciq]) (.resume (.inl type))
  have released := checkAndSendDealloc_ctl dealloc
  have T' := packetCtls_tables (signalCtl_tables T set) (entryCtls_packet released)
  rw [status_transmit T' h, entryCtls_status released]
  refine (status_setEntry s tag.root r (e.setStatus p .resume) p).trans ?_
  by_cases eq : r = tag.root
  · simp [eq, CAMEntry.pausedOn, CAMEntry.setStatus]
  · simp [eq, Ne.symm eq]

theorem receiveDealloc_status {s t : Switch n} {tag : CITag} {p : Fin n} {r : Spot}
    (type : tag.ciType = .dealloc) (h : s.receiveDealloc cfg tag p = .ok t) :
    t.statusPaused p r = tag.applyTo r (s.statusPaused p r) := by
  simp only [CITag.applyTo, type]
  unfold receiveDealloc at h
  split at h
  · split at h
    · cases h
      rfl
    rename_i e found
    split at h
    · rw [entryCtls_status (checkAndSendDealloc_ctl h)]
      exact status_same (f := e.setCIQDealloc p) found rfl r
    · cases h
      rfl
  · split at h
    · split at h <;> cases h <;> rfl
    · cases h
      rfl

theorem mergeOldRoot_status {s t : Switch n} {tag : CITag} {p : Fin n} {e : CAMEntry n}
    (found : s.getEntry tag.root = some e) (h : s.mergeOldRoot cfg tag p = .ok t) (r : Spot) :
    t.statusPaused p r = if tag.old = r then false else s.statusPaused p r := by
  unfold mergeOldRoot at h
  split at h
  · rename_i absent
    cases h
    split
    · rename_i eq
      simp [statusPaused, ← eq, absent]
    · rfl
  rename_i old foundOld
  rw [entryCtls_status (releaseMergeCIQEntry_ctl h), statusPaused,
    retire_entries cfg found foundOld]
  by_cases eq : r = tag.old
  · simp [eq, CAMEntry.pausedOn, CAMEntry.setStatus]
  · rw [if_neg eq, if_neg (Ne.symm eq)]
    split
    · rename_i same
      rw [same, status_known found]
      rfl
    · rfl

theorem receiveMerge_status {s t : Switch n} {tag : CITag} {p : Fin n}
    {pick : Option (ℕ × ℕ)} {r : Spot}
    (T : Tables s) (port : r.portId ≠ noPort) (type : tag.ciType = .merge)
    (h : s.receiveMerge cfg tag p pick = .ok t) :
    t.statusPaused p r = tag.applyTo r (s.statusPaused p r) := by
  unfold receiveMerge at h
  obtain ⟨⟨s₁, e⟩, entry, h⟩ := bind_ok h
  obtain ⟨found, steps⟩ := entryFor_ctl cfg (p := p) (.inr type) entry
  cases shape : (if registers e tag.root p then s₁.registerRoot tag.root e p else (s₁, e)) with
  | mk s₂ e₂ =>
    have signal : SignalStatus tag .resume false := .resume (.inr type)
    have set := status_set port signal shape
    have steps := steps.tail (.inr (signalStatus_ctl cfg signal found shape))
    simp only [shape] at h
    obtain ⟨u, merged, h⟩ := bind_ok h
    have found' : ((s₂.setEntry tag.root (e₂.setStatus p .resume)).setPaused p (e₂.oportCiq p)
        (some false)).getEntry tag.root = some (e₂.setStatus p .resume) := by
      simp [getEntry, setPaused, setEntry]
    have T' := signalCtls_tables T (steps.trans (mergeOldRoot_ctl found' type merged))
    rw [status_transmit T' h, mergeOldRoot_status found' merged, set, status_entryFor entry]
    simp only [CITag.applyTo, type]
    by_cases old : tag.old = r <;> simp [old]

theorem receiveCI_status {s t : Switch n} {tag : CITag} {p : Fin n}
    {pick : Option (ℕ × ℕ)} {r : Spot}
    (T : Tables s) (port : r.portId ≠ noPort) (h : s.receiveCI cfg tag p pick = .ok t) :
    t.statusPaused p r = tag.applyTo r (s.statusPaused p r) := by
  unfold receiveCI at h
  split at h
  · rename_i type
    exact receivePause_status port type h
  · rename_i type
    exact receiveResume_status T type h
  · rename_i type
    exact receiveDealloc_status type h
  · rename_i type
    exact receiveMerge_status T port type h

end Switch

end Pyrrha

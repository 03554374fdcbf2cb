import Pyrrha.Switch.Match
import Pyrrha.Switch.Invariant

/-!
The asserts of the congestion tables never fire, as long as the hop of every entry is the distance
of its root along the route of the packets that match it.
-/

namespace Pyrrha
open Lib Relation

variable {n : ℕ} {cfg : Config n}

def Assert.table : Assert → Bool
  | .notifyEnqueueIntoCIQ | .notifyDequeueFromCIQ | .checkAndSendDealloc | .releaseMergeCIQEntry =>
      true
  | _ => false

namespace Switch

/-- `e`, the entry of `r`, can match `tag` on `dev`, and its hop is the distance of `r`. -/
def HopAligned (s : Switch n) (dev : Fin n) (tag : RoutingTag) : Prop :=
  ∀ i r e, tag.currHop < i → tag.routing[i]? = some r → s.getEntry r = some e →
    e.oportCiq dev ≠ none → e.hop = i - tag.currHop

/-- Every packet that waits in a CIQ is aligned with the entries it can still match. -/
def Aligned (s : Switch n) : Prop :=
  ∀ dev q p, queueNum ≤ q → p ∈ s.queues dev q → HopAligned s dev p.routingTag

/-! ### Merging only happens with merging on -/

/-- A CIQ can only be merging if `congestion_merge` is on. -/
def MergeOn (cfg : Config n) (s : Switch n) : Prop :=
  ∀ r e p, s.getEntry r = some e → e.oportStatus p = .merge → cfg.congestionMerge = true

theorem mergeOn_setEntry {s : Switch n} (M : MergeOn cfg s) {root : Spot} {e : CAMEntry n}
    (same : ∀ p, e.oportStatus p = .merge → cfg.congestionMerge = true) :
    MergeOn cfg (s.setEntry root e) := by
  intro r e' p found merging
  rw [getEntry_setEntry] at found
  split at found
  · cases found
    exact same p merging
  · exact M r e' p found merging

theorem mergeOn_status {e : CAMEntry n} {x p : Fin n} {st : CIQStatus}
    (same : ∀ p, e.oportStatus p = .merge → cfg.congestionMerge = true) (ne : st ≠ .merge)
    (h : (e.setStatus x st).oportStatus p = .merge) : cfg.congestionMerge = true := by
  simp only [CAMEntry.setStatus, Function.update_apply] at h
  split at h
  · exact absurd h ne
  · exact same p h

theorem mergeOn_packetCtl {s t : Switch n} (M : MergeOn cfg s) (h : PacketCtl cfg s t) :
    MergeOn cfg t := by
  cases h with
  | rootPause => exact M
  | rootResume e q =>
    unfold notifyDequeueFromOQ
    split <;> exact M
  | childPause root e i p found => exact mergeOn_setEntry M (M root e · found)
  | childResume root e i p found => exact mergeOn_setEntry M (M root e · found)
  | dealloc root e p c found =>
    exact mergeOn_setEntry M fun x h => mergeOn_status (M root e · found) (by simp) h
  | freeMerged root e p c found => exact mergeOn_setEntry M (M root e · found)
  | erase root e found =>
    intro r e' p found' merging
    simp only [getEntry, eraseEntry, Function.update_apply] at found'
    split at found'
    · cases found'
    · exact M r e' p found' merging

theorem mergeOn_signalCtl {s t : Switch n} {tag : CITag} {p : Fin n} (M : MergeOn cfg s)
    (h : SignalCtl cfg tag p s t) : MergeOn cfg t := by
  cases h with
  | create => exact mergeOn_setEntry M fun x h => by cases h
  | register e st b found fresh signal =>
    have base : MergeOn cfg (s.registerRoot tag.root e p).1 :=
      mergeOn_setEntry M (M tag.root e · found)
    have ne : st ≠ .merge := by cases signal <;> simp
    exact mergeOn_setEntry base fun x h => mergeOn_status (M tag.root e · found) ne h
  | setStatus e st b found known signal =>
    have ne : st ≠ .merge := by cases signal <;> simp
    exact mergeOn_setEntry M fun x h => mergeOn_status (M tag.root e · found) ne h
  | startMerge e found => exact mergeOn_setEntry M (M tag.root e · found)
  | retire e old found foundOld merge on => exact fun _ _ _ _ _ => on
  | childDealloc e found => exact mergeOn_setEntry M (M tag.root e · found)
  | rootDealloc => exact M

theorem mergeOn_control : ControlInvariant cfg (fun _ _ => True) (MergeOn cfg) where
  same M h := by
    intro r e p found
    rw [getEntry, h.entries] at found
    exact M r e p found
  packet _ M := mergeOn_packetCtl M
  signal _ M _ := mergeOn_signalCtl M
  count {_ root e} _ _ M found := mergeOn_setEntry M (M root e · found)

theorem reachable_mergeOn {allowed : Switch n → Event n → Switch n → Prop} {s : Switch n}
    (h : Reachable cfg allowed s) : MergeOn cfg s :=
  control_reachable mergeOn_control (fun _ _ _ found => by cases found) h

/-! ### Steps without a table assert -/

/-- `x` does not stop at an assert about the congestion tables. -/
def Sound {α : Type} (x : Checked α) : Prop := ∀ a, x = .error a → a.table = false

theorem sound_ok {α : Type} (x : α) : Sound (.ok x) := fun _ h => by cases h

theorem sound_bind {α β : Type} {x : Checked α} {f : α → Checked β} (hx : Sound x)
    (hf : ∀ a, x = .ok a → Sound (f a)) : Sound (x >>= f) := by
  intro a h
  rcases bind_error h with failed | ⟨y, first, failed⟩
  · exact hx a failed
  · exact hf y first a failed

theorem deallocPort_sound {s : Switch n} (T : Tables s) {root : Spot} {e : CAMEntry n}
    (found : s.getEntry root = some e) (all : Bool) (i : Fin n) :
    Sound (deallocPort root (s, all) i) := by
  simp only [deallocPort, found]
  split
  · exact sound_ok _
  · rename_i c ciq
    have mapped := tables_map T found ciq
    have registered := (T.range i c root mapped).2
    have key := T.paused i c root mapped
    rw [if_neg (by omega)]
    split
    · rw [if_neg (by simp [key, mapped])]
      exact sound_ok _
    · exact sound_ok _

theorem deallocPort_tables {s t : Switch n} (T : Tables s) {root : Spot}
    {e : CAMEntry n} {i : Fin n}
    {all all' : Bool} (found : s.getEntry root = some e) (h : deallocPort root (s, all) i =
      .ok (t, all')) :
    Tables t ∧ ∃ e', t.getEntry root = some e' := by
  rcases deallocPort_cases found h with ⟨_, rfl, _⟩ | ⟨c, ciq, empty, _, _, rfl⟩ | ⟨_, rfl, _⟩
  · exact ⟨T, e, found⟩
  · have sent : Tables (s.sendCIPacket i (deallocTag root)) :=
      frame_tables T (frame_rfl rfl rfl rfl rfl rfl rfl rfl)
    refine ⟨release_tables sent (e := e) found ⟨rfl, rfl⟩ ciq empty, ?_⟩
    exact ⟨_, by rw [getEntry_releaseCIQ, if_pos rfl]⟩
  · exact ⟨T, e, found⟩

theorem checkAndSendDealloc_sound {s : Switch n} (T : Tables s) {root : Spot} {e : CAMEntry n}
    (found : s.getEntry root = some e) : Sound (s.checkAndSendDealloc cfg root) := by
  simp only [checkAndSendDealloc, found]
  split
  · exact sound_ok _
  split
  · exact sound_ok _
  refine sound_bind ?_ fun _ _ => sound_ok _
  intro a failed
  obtain ⟨i, _, ⟨u, all⟩, ⟨T', e', found'⟩, failed⟩ := foldlM_error
    (I := fun acc : Switch n × Bool => Tables acc.1 ∧ ∃ e', acc.1.getEntry root = some e')
    (fun i _ acc acc' before call => deallocPort_tables before.1 before.2.choose_spec call)
    ⟨T, e, found⟩ failed
  exact deallocPort_sound T' found' all i a failed

theorem releaseMergeCIQEntry_sound {s : Switch n} (T : Tables s) {root : Spot}
    {e : CAMEntry n} {p : Fin n}
    (found : s.getEntry root = some e) (merging : e.oportStatus p = .merge)
    (on : cfg.congestionMerge = true) : Sound (s.releaseMergeCIQEntry cfg root p) := by
  simp only [releaseMergeCIQEntry, found, on, merging]
  rw [if_neg (by simp)]
  split
  · exact sound_ok _
  · rename_i c ciq
    have mapped := tables_map T found ciq
    have registered := (T.range p c root mapped).2
    have key := T.paused p c root mapped
    rw [if_neg (by omega)]
    split
    · rw [if_neg (by simp [key, mapped])]
      exact sound_ok _
    · exact sound_ok _

theorem notifyEnqueue_sound {s : Switch n} (T : Tables s) {idx : Fin n} {q : ℕ} (p : Packet n)
    (place : queueNum ≤ q → s.ciqRootMap idx q ≠ none) : Sound (s.notifyEnqueue cfg idx q p) := by
  unfold notifyEnqueue
  split
  · exact sound_ok _
  split
  · exact sound_ok _
  rename_i ciq
  obtain ⟨root, mapped⟩ := Option.ne_none_iff_exists'.mp (place (by omega))
  obtain ⟨e, found, _⟩ := tables_entry T mapped
  simp only [notifyEnqueueIntoCIQ, mapped, found]
  exact sound_ok _

theorem notifyDequeue_sound {s : Switch n} (T : Tables s) (M : MergeOn cfg s) {idx : Fin n} {q : ℕ}
    (p : Packet n) (place : queueNum ≤ q → s.ciqRootMap idx q ≠ none) :
    Sound (s.notifyDequeue cfg idx q p) := by
  unfold notifyDequeue
  split
  · exact sound_ok _
  split
  · exact sound_ok _
  rename_i ciq
  obtain ⟨root, mapped⟩ := Option.ne_none_iff_exists'.mp (place (by omega))
  obtain ⟨e, found, _⟩ := tables_entry T mapped
  simp only [notifyDequeueFromCIQ, mapped, found]
  set e' := e.setCounter p.inDev (sub32 (e.iportCounter p.inDev) p.size)
  -- the entry is still there after the resume, with the statuses it had
  have resumed : ∃ e'', ((s.setEntry root e').resumeChild cfg root e' p.inDev idx).getEntry root =
    some e'' ∧ e''.oportStatus = e.oportStatus := by
    unfold resumeChild
    split
    · exact ⟨_, getEntry_setEntry_same _ _ _, rfl⟩
    · exact ⟨_, getEntry_setEntry_same _ _ _, rfl⟩
  obtain ⟨e'', found'', same⟩ := resumed
  have T' : Tables ((s.setEntry root e').resumeChild cfg root e' p.inDev idx) :=
    packetCtls_tables (count_tables T found _ _)
      (entryCtls_packet (resumeChild_ctl cfg (getEntry_setEntry_same s root e') p.inDev idx))
  split
  · exact checkAndSendDealloc_sound T' found''
  · rename_i merging
    have merging : e.oportStatus idx = .merge := not_not.mp merging
    exact releaseMergeCIQEntry_sound T' found'' (by rw [same, merging]) (M root e idx found merging)

theorem dequeueAndTransmit_sound {s : Switch n} (T : Tables s) (M : MergeOn cfg s) (dev : Fin n)
    (pick : Option (ℕ × ℕ)) : Sound (s.dequeueAndTransmit cfg dev pick) := by
  unfold dequeueAndTransmit
  split
  · exact sound_ok _
  split
  · exact sound_ok _
  rename_i q k pickable
  split
  · exact sound_ok _
  rename_i p head
  have sent := sent_tables T head
  unfold switchNotifyDequeue
  split
  · exact sound_ok _
  · exact sound_ok _
  · exact sound_ok _
  refine sound_bind ?_ fun u removed => ?_
  · intro a failed
    unfold removeFromEgressAdmission at failed
    split at failed
    · cases failed
    · cases failed
      rfl
  · obtain ⟨_, rfl⟩ := removeFromEgressAdmission_ok removed
    exact notifyDequeue_sound (egress_tables sent dev q _) M p fun ciq => by omega

/-! ### Signals -/

theorem entryFor_sound (s : Switch n) (tag : CITag) : Sound (s.entryFor tag) := by
  intro a failed
  unfold entryFor at failed
  split at failed
  · cases failed
  · split at failed
    · cases failed
      rfl
    · cases failed

theorem receivePause_sound (s : Switch n) (tag : CITag) (p : Fin n) :
    Sound (s.receivePause cfg tag p) := by
  unfold receivePause
  refine sound_bind (entryFor_sound s tag) fun _ _ => ?_
  dsimp only
  split <;> split <;> exact sound_ok _

theorem receiveResume_sound {s : Switch n} (T : Tables s) (M : MergeOn cfg s)
    {tag : CITag} {p : Fin n} (pick : Option (ℕ × ℕ)) (type : tag.ciType = .resume) :
    Sound (s.receiveResume cfg tag p pick) := by
  unfold receiveResume
  split
  · exact sound_ok _
  rename_i e found
  split
  · exact sound_ok _
  rename_i c ciq
  have set :
    SignalCtl cfg tag p s ((s.setEntry tag.root (e.setStatus p .resume)).setPaused p (some c)
      (some false)) := by
    rw [← ciq]
    exact .setStatus e .resume false found (by simp [registers, ciq]) (.resume (.inl type))
  have T' := signalCtl_tables T set
  have M' := mergeOn_signalCtl M set
  refine sound_bind (checkAndSendDealloc_sound T' (getEntry_setEntry_same s tag.root _)) fun u
    dealloc => ?_
  have steps := entryCtls_packet (checkAndSendDealloc_ctl dealloc)
  exact dequeueAndTransmit_sound (packetCtls_tables T' steps)
    (packetCtls_preserve (fun _ _ => mergeOn_packetCtl) M' steps) p pick

theorem receiveDealloc_sound {s : Switch n} (T : Tables s) (tag : CITag) (p : Fin n) :
    Sound (s.receiveDealloc cfg tag p) := by
  unfold receiveDealloc
  split
  · split
    · exact sound_ok _
    rename_i e found
    split
    · have T' := frame_tables T (frame_setEntry (f := e.setCIQDealloc p) found ⟨rfl, rfl⟩)
      exact checkAndSendDealloc_sound T' (getEntry_setEntry_same s tag.root _)
    · exact sound_ok _
  · split
    · split <;> exact sound_ok _
    · exact sound_ok _

theorem retireOldRoot_entry (cfg : Config n) (s : Switch n) (tag : CITag) (old : CAMEntry n) (p : Fin n) :
    ∃ e, (s.retireOldRoot cfg tag old p).getEntry tag.old = some e ∧ e.oportStatus p = .merge := by
  unfold retireOldRoot
  extract_lets old' s₁ s₂ s₃
  have merging : old'.oportStatus p = .merge := by simp [old', CAMEntry.setStatus]
  have at₂ : s₂.getEntry tag.old = some old' := by
    by_cases h : s₁.paused p (old'.oportCiq p) = some true
    · rw [show s₂ = s₁.setPaused p (old'.oportCiq p) (some false) from if_pos h]
      exact getEntry_setEntry_same s tag.old old'
    · rw [show s₂ = s₁ from if_neg h]
      exact getEntry_setEntry_same s tag.old old'
  have at₃ : ∃ e, s₃.getEntry tag.old = some e ∧ e.oportStatus p = .merge := by
    cases found : s₂.getEntry tag.root with
    | none =>
      rw [show s₃ = s₂ by simp only [s₃, found]]
      exact ⟨old', at₂, merging⟩
    | some e =>
      rw [show s₃ = s₂.mergeUpstreams tag.root e tag.old
        (passesMerge cfg old') by simp only [s₃, found]]
      have entry := getEntry_setEntry s₂ tag.root tag.old (e.setCIQResumes (passesMerge cfg old'))
      split at entry
      · rename_i eq
        rw [eq, found] at at₂
        obtain rfl := Option.some.inj at₂
        exact ⟨_, entry, merging⟩
      · exact ⟨old', entry.trans at₂, merging⟩
  obtain ⟨e, found, merging⟩ := at₃
  simp only [found]
  exact ⟨_, getEntry_setEntry_same s₃ tag.old _, merging⟩

theorem receiveMerge_sound {s : Switch n} (T : Tables s) (M : MergeOn cfg s)
    {tag : CITag} {p : Fin n}
    (pick : Option (ℕ × ℕ)) (type : tag.ciType = .merge) (on : cfg.congestionMerge = true) :
    Sound (s.receiveMerge cfg tag p pick) := by
  unfold receiveMerge
  refine sound_bind (entryFor_sound s tag) fun x entry => ?_
  obtain ⟨s₁, e⟩ := x
  obtain ⟨found, steps⟩ := entryFor_ctl cfg (p := p) (.inr type) entry
  cases shape : (if registers e tag.root p then s₁.registerRoot tag.root e p else (s₁, e)) with
  | mk s₂ e₂ =>
    have set := signalStatus_ctl cfg (.resume (.inr type)) found shape
    simp only [shape]
    have T' := signalCtls_tables T (steps.tail (.inr set))
    have M' := signalCtls_preserve (fun _ _ => mergeOn_packetCtl) (fun _ _ => mergeOn_signalCtl) M
      (steps.tail (.inr set))
    set u := (s₂.setEntry tag.root (e₂.setStatus p .resume)).setPaused p (e₂.oportCiq p)
      (some false)
    refine sound_bind ?_ fun v merged => ?_
    · unfold mergeOldRoot
      split
      · exact sound_ok _
      · rename_i old foundOld
        obtain ⟨e', found', merging⟩ := retireOldRoot_entry cfg u tag old p
        exact releaseMergeCIQEntry_sound (frame_tables T' (frame_retire cfg u tag p foundOld))
          found' merging on
    · unfold mergeOldRoot at merged
      split at merged
      · cases merged
        exact dequeueAndTransmit_sound T' M' p pick
      · rename_i old foundOld
        have T₃ := frame_tables T' (frame_retire cfg u tag p foundOld)
        have released := packetCtls_tables T₃ (entryCtls_packet (releaseMergeCIQEntry_ctl merged))
        exact dequeueAndTransmit_sound released (fun _ _ _ _ _ => on) p pick

theorem receiveCI_sound {s : Switch n} (T : Tables s) (M : MergeOn cfg s) {tag : CITag} {p : Fin n}
    (pick : Option (ℕ × ℕ)) (on : tag.ciType = .merge → cfg.congestionMerge = true) :
    Sound (s.receiveCI cfg tag p pick) := by
  unfold receiveCI
  split
  · exact receivePause_sound s tag p
  · rename_i type
    exact receiveResume_sound T M pick type
  · exact receiveDealloc_sound T tag p
  · rename_i type
    exact receiveMerge_sound T M pick type (on type)

/-! ### Alignment during a round -/

/-- The trees of `t` are those of `s`, less some CIQs and entries. -/
def Narrows (s t : Switch n) : Prop :=
  ∀ r e', t.getEntry r = some e' → ∃ e, s.getEntry r = some e ∧ e'.hop = e.hop ∧
    ∀ p, e'.oportCiq p ≠ none → e.oportCiq p ≠ none

theorem narrows_refl (s : Switch n) : Narrows s s := fun _ e found => ⟨e, found, rfl, fun _ h => h⟩

theorem narrows_trans {s t u : Switch n} (h : Narrows s t) (k : Narrows t u) : Narrows s u := by
  intro r e'' found
  obtain ⟨e', found', hop', ciq'⟩ := k r e'' found
  obtain ⟨e, found₀, hop, ciq⟩ := h r e' found'
  exact ⟨e, found₀, hop'.trans hop, fun p h => ciq p (ciq' p h)⟩

theorem narrows_setEntry {s : Switch n} {root : Spot} {e f : CAMEntry n}
    (found : s.getEntry root = some e) (hop : f.hop = e.hop)
    (ciq : ∀ p, f.oportCiq p ≠ none → e.oportCiq p ≠ none) : Narrows s (s.setEntry root f) := by
  intro r e'' found'
  rw [getEntry_setEntry] at found'
  split at found'
  · rename_i eq
    cases found'
    exact ⟨e, by rw [eq, found], hop, ciq⟩
  · exact ⟨e'', found', rfl, fun _ h => h⟩

theorem narrows_release {s : Switch n} {root : Spot} {e f : CAMEntry n}
    (found : s.getEntry root = some e)
    (same : SameTree e f) (p : Fin n) (c : ℕ) : Narrows s (s.releaseCIQ root f p c) := by
  refine narrows_setEntry found (f := f.setCiq p none) same.1 fun x h => ?_
  simp only [CAMEntry.setCiq, Function.update_apply] at h
  split at h
  · exact absurd rfl h
  · rw [← same.2]
    exact h

theorem packetCtl_narrows {s t : Switch n} (h : PacketCtl cfg s t) : Narrows s t := by
  cases h with
  | rootPause => exact narrows_refl s
  | rootResume e q =>
    unfold notifyDequeueFromOQ
    split <;> exact narrows_refl s
  | childPause root e i p found => exact narrows_setEntry (f := e.setCIQPause i) found rfl fun _ h => h
  | childResume root e i p found => exact narrows_setEntry (f := e.setCIQResume i) found rfl fun _ h => h
  | dealloc root e p c found =>
      exact narrows_release (f := e.setStatus p .initial) found ⟨rfl, rfl⟩ p c
  | freeMerged root e p c found => exact narrows_release found ⟨rfl, rfl⟩ p c
  | erase root e found =>
    intro r e' found'
    simp only [getEntry, eraseEntry, Function.update_apply] at found'
    split at found'
    · cases found'
    · exact ⟨e', found', rfl, fun _ h => h⟩

theorem packetCtls_narrows {s t : Switch n} (h : PacketCtls cfg s t) : Narrows s t :=
  packetCtls_preserve (I := Narrows s) (fun _ _ before last =>
    narrows_trans before (packetCtl_narrows last)) (narrows_refl s) h

theorem notifyEnqueue_narrows {s t : Switch n} {idx : Fin n} {q : ℕ} {p : Packet n}
    (h : s.notifyEnqueue cfg idx q p = .ok t) : Narrows s t := by
  rcases notifyEnqueue_ctl h with ⟨_, steps⟩ | ⟨_, root, e, _, found, steps⟩
  · exact packetCtls_narrows steps
  · have counted : Narrows s (s.countIn root e p) := narrows_setEntry found rfl fun _ h => h
    exact narrows_trans counted (packetCtls_narrows steps)

theorem notifyDequeue_narrows {s t : Switch n} {idx : Fin n} {q : ℕ} {p : Packet n}
    (h : s.notifyDequeue cfg idx q p = .ok t) : Narrows s t := by
  rcases notifyDequeue_ctl h with ⟨_, steps⟩ | ⟨_, root, e, _, found, steps⟩
  · exact packetCtls_narrows steps
  · have counted : Narrows s (s.countOut root e p) := narrows_setEntry found rfl fun _ h => h
    exact narrows_trans counted (packetCtls_narrows steps)

theorem hierMove_narrows {s t : Switch n} {dev : Fin n} {level q : ℕ} {b b' : Bool}
    (h : hierMove cfg dev level (s, b) q = .ok (t, b')) : Narrows s t := by
  rcases hierMove_cases h with rfl | ⟨p, rest, nextQ, u, v, w, _, _, left, removed, entered, rfl⟩
  · exact narrows_refl _
  obtain ⟨_, rfl⟩ := removeFromEgressAdmission_ok removed
  have first : Narrows s u := fun r e found => notifyDequeue_narrows left r e found
  have second : Narrows u w := fun r e found => notifyEnqueue_narrows entered r e found
  exact narrows_trans first second

theorem dequeueAndTransmit_narrows {s t : Switch n} {dev : Fin n} {pick : Option (ℕ × ℕ)}
    (h : s.dequeueAndTransmit cfg dev pick = .ok t) : Narrows s t := by
  rcases dequeueAndTransmit_cases h with rfl | ⟨q, k, p, _, _, _, left⟩
  · exact narrows_refl _
  rcases switchNotifyDequeue_cases left with ⟨_, rfl⟩ | ⟨_, _, u, removed, notified⟩
  · exact narrows_refl s
  · obtain ⟨_, rfl⟩ := removeFromEgressAdmission_ok removed
    exact fun r e found => notifyDequeue_narrows notified r e found

theorem hopAligned_narrows {s t : Switch n} {dev : Fin n} {tag : RoutingTag}
    (aligned : HopAligned s dev tag) (N : Narrows s t) : HopAligned t dev tag := by
  intro i r e' after at_i found' ciq
  obtain ⟨e, found, hop, ciqs⟩ := N r e' found'
  rw [hop]
  exact aligned i r e after at_i found (ciqs dev ciq)

theorem aligned_narrows {s t : Switch n} (A : Aligned s) (N : Narrows s t)
    (waits : ∀ dev q p, queueNum ≤ q → p ∈ t.queues dev q → ∃ q', queueNum ≤ q' ∧
      p ∈ s.queues dev q') :
    Aligned t := by
  intro dev q p hq member
  obtain ⟨q', hq', member'⟩ := waits dev q p hq member
  exact hopAligned_narrows (A dev q' p hq' member') N

theorem mem_pushQueue {s : Switch n} {dev x : Fin n} {p a : Packet n} {q y : ℕ}
    (h : a ∈ (s.pushQueue dev p q).queues x y) : a ∈ s.queues x y ∨ (x = dev ∧ y = q ∧ a = p) := by
  simp only [pushQueue, update₂_apply] at h
  split at h
  · rename_i eq
    rw [← eq.1, ← eq.2] at h
    rcases List.mem_append.mp h with h | h
    · exact .inl h
    · exact .inr ⟨eq.1, eq.2, List.mem_singleton.mp h⟩
  · exact .inl h

theorem mem_popQueue {s : Switch n} {dev x : Fin n} {p a : Packet n} {q k y : ℕ}
    (h : a ∈ (s.popQueue dev q k p).queues x y) : a ∈ s.queues x y := by
  simp only [popQueue, update₂_apply] at h
  split at h
  · rename_i eq
    rw [eq.1, eq.2]
    exact List.mem_of_mem_eraseIdx h
  · exact h

theorem hierMove_aligned {s t : Switch n} {dev : Fin n} {level q : ℕ} {b b' : Bool} (A : Aligned s)
    (ciq : queueNum ≤ q) (h : hierMove cfg dev level (s, b) q = .ok (t, b')) : Aligned t := by
  refine aligned_narrows A (hierMove_narrows h) fun x y a hy member => ?_
  rcases hierMove_cases h with rfl | ⟨p, rest, nextQ, u, v, w, head, _, left, removed, entered, rfl⟩
  · exact ⟨y, hy, member⟩
  have queues := (hierMove_queues left removed entered).1
  rw [show (w.updateEgressAdmission dev nextQ p.size).queues = w.queues from rfl, queues] at member
  rcases mem_pushQueue member with member | ⟨rfl, _, rfl⟩
  · exact ⟨y, hy, mem_popQueue member⟩
  · exact ⟨q, ciq, by simp [head]⟩

theorem dequeueAndTransmit_aligned {s t : Switch n} {dev : Fin n} {pick : Option (ℕ × ℕ)}
    (A : Aligned s) (h : s.dequeueAndTransmit cfg dev pick = .ok t) : Aligned t := by
  refine aligned_narrows A (dequeueAndTransmit_narrows h) fun x y a hy member => ⟨y, hy, ?_⟩
  rcases dequeueAndTransmit_cases h with rfl | ⟨q, k, p, _, _, _, left⟩
  · exact member
  rcases switchNotifyDequeue_cases left with ⟨_, rfl⟩ | ⟨_, _, u, removed, notified⟩
  · exact mem_popQueue (p := p) member
  · obtain ⟨_, rfl⟩ := removeFromEgressAdmission_ok removed
    rw [(notifyDequeue_buffers notified).queues] at member
    exact mem_popQueue (p := p) member

/-! ### A round without a table assert -/

theorem deallocPort_other {root r : Spot} {s t : Switch n} {all all' : Bool} {i : Fin n}
    (ne : r ≠ root)
    (h : deallocPort root (s, all) i = .ok (t, all')) : t.getEntry r = s.getEntry r := by
  cases found : s.getEntry root with
  | none => simp [deallocPort, found] at h
  | some e =>
    rcases deallocPort_cases found h with ⟨_, rfl, _⟩ | ⟨c, _, _, _, _, rfl⟩ | ⟨_, rfl, _⟩
    · rfl
    · rw [getEntry_releaseCIQ, if_neg ne]
      rfl
    · rfl

theorem getEntry_eraseEntry_other (s : Switch n) {root r : Spot} (ne : r ≠ root) :
    (s.eraseEntry root).getEntry r = s.getEntry r := by
  simp [getEntry, eraseEntry, ne]

theorem checkAndSendDealloc_other {root r : Spot} {s t : Switch n} (ne : r ≠ root)
    (h : s.checkAndSendDealloc cfg root = .ok t) : t.getEntry r = s.getEntry r := by
  simp only [checkAndSendDealloc] at h
  split at h
  · cases h
    rfl
  split at h
  · cases h
  split at h
  · cases h
    rfl
  obtain ⟨⟨u, all⟩, loop, h⟩ := bind_ok h
  have same : u.getEntry r = s.getEntry r :=
    foldlM_preserves (I := fun acc : Switch n × Bool => acc.1.getEntry r = s.getEntry r)
      (fun i _ acc acc' before call => (deallocPort_other ne call).trans before) rfl loop
  cases h
  cases all with
  | false => exact same
  | true => exact (getEntry_eraseEntry_other u ne).trans same

theorem releaseMergeCIQEntry_other {root r : Spot} {oport : Fin n} {s t : Switch n} (ne : r ≠ root)
    (h : s.releaseMergeCIQEntry cfg root oport = .ok t) : t.getEntry r = s.getEntry r := by
  have released : ∀ (u : Switch n) e, (u.releaseEntry root e).getEntry r = u.getEntry r := by
    intro u e
    unfold releaseEntry
    split
    · exact getEntry_eraseEntry_other u ne
    · rfl
  simp only [releaseMergeCIQEntry] at h
  split at h
  · cases h
  split at h
  · cases h
  split at h
  · cases h
    rfl
  split at h
  · cases h
  split at h
  · split at h
    · cases h
    · cases h
      rw [released, getEntry_releaseCIQ, if_neg ne]
  · cases h
    exact released s _

theorem notifyDequeue_other {s t : Switch n} {dev : Fin n} {q : ℕ} {p : Packet n} {root r : Spot}
    (mapped : s.ciqRootMap dev q = some root) (ciq : queueNum ≤ q) (ne : r ≠ root)
    (h : s.notifyDequeue cfg dev q p = .ok t) : t.getEntry r = s.getEntry r := by
  have pos : 0 < queueNum := by decide
  rw [notifyDequeue, if_neg (by omega), if_neg (by omega)] at h
  simp only [notifyDequeueFromCIQ, mapped] at h
  split at h
  · cases h
  rename_i e found
  set e' := e.setCounter p.inDev (sub32 (e.iportCounter p.inDev) p.size)
  have resumed : ((s.setEntry root e').resumeChild cfg root e' p.inDev dev).getEntry r =
      s.getEntry r := by
    unfold resumeChild
    split
    · exact ((getEntry_setEntry _ root r _).trans (if_neg ne)).trans
        ((getEntry_setEntry s root r e').trans (if_neg ne))
    · exact (getEntry_setEntry s root r e').trans (if_neg ne)
  split at h
  · exact (checkAndSendDealloc_other ne h).trans resumed
  · exact (releaseMergeCIQEntry_other ne h).trans resumed

theorem hierMove_sound {s : Switch n} (T : Tables s) (M : MergeOn cfg s) (A : Aligned s)
    {dev : Fin n} {level q : ℕ} (b : Bool) (visited : q ∈ s.priorities dev level) :
    Sound (hierMove cfg dev level (s, b) q) := by
  have ciq := (T.levels dev level q visited).1
  simp only [hierMove]
  split
  · exact sound_ok _
  rename_i p rest head
  have at_q : p ∈ s.queues dev q := by simp [head]
  obtain ⟨root, mapped⟩ := Option.ne_none_iff_exists'.mp (T.stored dev q ciq (by simp [head]))
  obtain ⟨e, found, _⟩ := tables_entry T mapped
  have hop := T.hops dev level q root e visited mapped found
  refine sound_bind ?_ fun next check => ?_
  · intro a failed
    unfold checkDequeueHierQ at failed
    split at failed
    · cases failed
    rcases bind_error failed with failed | ⟨m, _, failed⟩
    · rw [match_error failed]
      rfl
    · split at failed <;> cases failed
  split
  · exact sound_ok _
  · intro a failed
    cases failed
    rfl
  rename_i nextQ
  have popped := head_tables T head
  refine sound_bind (notifyDequeue_sound popped M p fun _ => by
    rw [show (s.popQueue dev q 0 p).ciqRootMap = s.ciqRootMap from rfl, mapped]
    simp) fun u left => ?_
  refine sound_bind (fun a failed => ?_) fun v removed => ?_
  · unfold removeFromEgressAdmission at failed
    split at failed
    · cases failed
    · cases failed
      rfl
  have out := notifyDequeue_tables popped left
  obtain ⟨_, rfl⟩ := removeFromEgressAdmission_ok removed
  -- the next queue was matched before the packet left, and its root is another one
  have place : queueNum ≤ nextQ → u.ciqRootMap dev nextQ ≠ none := by
    intro hq
    rcases (checkDequeueHierQ_cases check).2 with ⟨rfl, _⟩ | ⟨r, e', matched, ciq'⟩
    · have lt := matchDefaultQ_lt cfg p.header
      omega
    obtain ⟨before, i, after, hops, at_i, found', matchable, _⟩ :=
      matchFirst_some (match_first matched)
    have visitedHop : i ∈ matchHops cfg p.routingTag (some level) := by simp [hops]
    have ne : r ≠ root := by
      rintro rfl
      rw [found] at found'
      obtain rfl := Option.some.inj found'
      have distance := A dev q p ciq at_q i r e (mem_matchHops_gt visitedHop) at_i found matchable
      exact mem_matchHops_ne visitedHop (by omega)
    have kept :=
      notifyDequeue_other (show (s.popQueue dev q 0 p).ciqRootMap dev q = some root from mapped)
      ciq ne left
    rw [tables_map out (kept.trans found') ciq']
    simp
  split
  · intro a failed
    cases failed
    rfl
  rename_i pushed entered
  rw [doEnqueue_some entered]
  have T₃ := push_tables (p := p) (egress_tables out dev q (u.egressBytes dev q - p.size)) place
  exact sound_bind (notifyEnqueue_sound T₃ p place) fun _ _ => sound_ok _

/-- What a round needs of the state, and keeps. -/
def RoundReady (cfg : Config n) (s : Switch n) : Prop := Tables s ∧ MergeOn cfg s ∧ Aligned s

theorem hierMove_ready {s t : Switch n} {dev : Fin n} {level q : ℕ} {b b' : Bool}
    (R : RoundReady cfg s)
    (visited : q ∈ s.priorities dev level) (h : hierMove cfg dev level (s, b) q = .ok (t, b')) :
    RoundReady cfg t :=
  ⟨hierMove_tables R.1 h, control_move mergeOn_control R.1 R.2.1 h,
    hierMove_aligned R.2.2 (R.1.levels dev level q visited).1 h⟩

theorem dequeueAndTransmit_ready {s t : Switch n} {dev : Fin n} {pick : Option (ℕ × ℕ)}
    (R : RoundReady cfg s) (h : s.dequeueAndTransmit cfg dev pick = .ok t) : RoundReady cfg t :=
  ⟨dequeueAndTransmit_tables R.1 h, control_transmit mergeOn_control R.1 R.2.1 h,
    dequeueAndTransmit_aligned R.2.2 h⟩

theorem hierLevel_sound {dev : Fin n} {level : ℕ} {acc : Switch n × Bool}
    (R : RoundReady cfg acc.1) : Sound (hierLevel cfg dev acc level) := by
  intro a failed
  obtain ⟨q, member, ⟨u, b⟩, ⟨ready, same⟩, failed⟩ := foldlM_error
    (I := fun x : Switch n × Bool => RoundReady cfg x.1 ∧ x.1.priorities = acc.1.priorities)
    (fun q member x x' before call =>
      ⟨hierMove_ready before.1 (by rw [before.2]; exact member) call,
        (hierMove_priorities call).trans before.2⟩) ⟨R, rfl⟩ failed
  exact hierMove_sound ready.1 ready.2.1 ready.2.2 b (by rw [same]; exact member) a failed

theorem doHierQRR_sound {s : Switch n} (R : RoundReady cfg s) (picks : Fin n → Option (ℕ × ℕ)) :
    Sound (s.doHierQRR cfg picks) := by
  have move : ∀ u v dev level q b b', RoundReady cfg u → q ∈ u.priorities dev level →
      hierMove cfg dev level (u, b) q = .ok (v, b') → RoundReady cfg v :=
    fun u v dev level q b b' ready visited call => hierMove_ready ready visited call
  have levels : ∀ dev (acc acc' : Switch n × Bool), RoundReady cfg acc.1 →
      (List.range' 1 maxHop).reverse.foldlM (hierLevel cfg dev) acc = .ok acc' →
        RoundReady cfg acc'.1 :=
    fun dev acc acc' ready loop =>
      foldlM_preserves (I := fun x : Switch n × Bool => RoundReady cfg x.1)
      (fun level _ x x' before call => hierLevel_preserves move before call) ready loop
  intro a failed
  obtain ⟨dev, _, u, ready, failed⟩ :=
    foldlM_error (I := RoundReady cfg) (fun dev _ u v before call => by
    obtain ⟨⟨w, intoOQ⟩, loop, call⟩ := bind_ok call
    have after := levels dev (u, false) (w, intoOQ) before loop
    simp only at call
    split at call
    · exact dequeueAndTransmit_ready after call
    · cases call
      exact after) R failed
  rcases bind_error failed with failed | ⟨⟨w, intoOQ⟩, loop, failed⟩
  · obtain ⟨level, _, acc, ready, failed⟩ := foldlM_error
      (I := fun x : Switch n × Bool => RoundReady cfg x.1)
      (fun level _ x x' before call => hierLevel_preserves move before call) ready failed
    exact hierLevel_sound ready a failed
  · have after := levels dev (u, false) (w, intoOQ) ready loop
    simp only at failed
    split at failed
    · exact dequeueAndTransmit_sound after.1 after.2.1 dev (picks dev) a failed
    · cases failed

/-! ### Every event -/

theorem matchQ_place {s : Switch n} (T : Tables s) {idx : Fin n} {p : Packet n} {q : ℕ}
    (h : s.matchQ cfg idx p = .ok q) (ciq : queueNum ≤ q) : s.ciqRootMap idx q ≠ none := by
  rcases matchQ_cases h with ⟨rfl, _⟩ | ⟨_, r, e, matched, at_q⟩
  · have lt := matchDefaultQ_lt cfg p.header
    omega
  · obtain ⟨_, _, _, _, _, found, _⟩ := matchFirst_some (match_first matched)
    simp [tables_map T found at_q]

theorem acceptPacket_sound {s : Switch n} (T : Tables s) (idx : Fin n) (p : Packet n) :
    Sound (s.acceptPacket cfg idx p) := by
  unfold acceptPacket
  refine sound_bind (fun a failed => ?_) fun q matched => ?_
  · unfold matchQ at failed
    simp only at failed
    split at failed
    · cases failed
    rcases bind_error failed with failed | ⟨m, _, failed⟩
    · rw [match_error failed]
      rfl
    · split at failed <;> cases failed
  split
  · split
    · intro a failed
      cases failed
      rfl
    · exact sound_bind (notifyEnqueue_sound (egress_tables T idx q _) p (matchQ_place T matched))
        fun _ _ => sound_ok _
  · exact sound_ok _

/-- A merge signal is only ever sent with `congestion_merge` on, which is one setting of the
network. -/
def MergeSent (cfg : Config n) (ev : Event n) : Prop :=
  ∀ tag p pick, ev = .receiveCI tag p pick → tag.ciType = .merge → cfg.congestionMerge = true

theorem step_sound {s : Switch n} (R : RoundReady cfg s) {ev : Event n} (sent : MergeSent cfg ev) :
    Sound (s.step cfg ev) := by
  obtain ⟨T, M, A⟩ := R
  cases ev with
  | sendToDev idx p pick =>
    simp only [step, sendToDev]
    split
    · exact sound_ok _
    refine sound_bind (acceptPacket_sound T idx p) fun u accepted => ?_
    have T' := acceptPacket_tables T accepted
    have M' := control_accept mergeOn_control T M accepted
    refine sound_bind (dequeueAndTransmit_sound T' M' idx pick) fun v _ => ?_
    unfold doStatistics
    split
    · exact sound_ok _
    · intro a failed
      cases failed
      rfl
  | doHierQRR picks => exact doHierQRR_sound ⟨T, M, A⟩ picks
  | receiveCI tag ingress pick => exact receiveCI_sound T M pick (sent tag ingress pick rfl)
  | dequeueAndTransmit dev pick => exact dequeueAndTransmit_sound T M dev pick
  | sendFrame dev p pick =>
    simp only [step]
    split
    · have M' := control_switchSend mergeOn_control M dev 0 p
      exact dequeueAndTransmit_sound (frame_switchSend cfg T dev p) M' dev pick
    · exact sound_ok _

/-- Table coherence: in every reachable state the entries, the CIQ indices, the reverse map and the
pause flags agree, every packet of a CIQ is in a registered one, and no step stops at an assert
about the tables if the hops of the entries are the distances of their roots. -/
theorem tables_coherent {s : Switch n} (reached : Reaches cfg s) :
    (∀ p c r, s.ciqRootMap p c = some r ↔ ∃ e, s.getEntry r = some e ∧ e.oportCiq p = some c) ∧
    (∀ r r' e e' p c, s.getEntry r = some e → s.getEntry r' = some e' → e.oportCiq p = some c →
      e'.oportCiq p = some c → r = r') ∧
    (∀ r e p c, s.getEntry r = some e → e.oportCiq p = some c → s.paused p (some c) ≠ none) ∧
    (∀ p q, queueNum ≤ q → s.queues p q ≠ [] → s.ciqRootMap p q ≠ none) ∧
    (Aligned s → ∀ ev, MergeSent cfg ev → ∀ a, s.step cfg ev = .error a → a.table = false) := by
  have T := reachable_tables reached
  refine ⟨T.root_iff, ?_, ?_, T.stored, ?_⟩
  · intro r r' e e' p c found found' ciq ciq'
    have here := tables_map T found ciq
    rw [tables_map T found' ciq'] at here
    exact (Option.some.inj here).symm
  · intro r e p c found ciq
    exact T.paused p c r (tables_map T found ciq)
  · intro aligned ev sent
    exact step_sound ⟨T, reachable_mergeOn reached, aligned⟩ sent

/-- The entry of the paused root has the CIQ in which the packet that crosses it waits, and that
packet is put there without a failed assert. -/
theorem tables_coherent_paused :
    (∃ s e, run (smallConfig 2) {} pausedRun = .ok s ∧ s.queues 0 8 ≠ [] ∧ s.ciqRootMap 0 8 ≠ none ∧
      s.getEntry ⟨7, 0⟩ = some e ∧ e.oportCiq 0 = some 8 ∧ s.paused 0 (some 8) ≠ none ∧
      ∀ r e', s.getEntry r = some e' → e'.oportCiq 0 = some 8 → r = ⟨7, 0⟩) ∧
    ∃ s, run (smallConfig 2) {} (pausedRun.take 1) = .ok s ∧ ∀ a,
      s.step (smallConfig 2) (.sendToDev 0 (dataPacket 0 1 [⟨1, 0⟩, ⟨7, 0⟩]) none) = .error a →
      a.table = false := by
  constructor
  · obtain ⟨s, ends, facts⟩ := run_ends (smallConfig 2) pausedRun
      (fun s => decide (s.queues 0 8 ≠ [] ∧ s.ciqRootMap 0 8 = some ⟨7, 0⟩)) (by decide)
    obtain ⟨nonempty, root⟩ := of_decide_eq_true facts
    obtain ⟨mapped, unshared, flagged, stored, -⟩ := tables_coherent (reaches_run ends)
    obtain ⟨e, found, ciq⟩ := (mapped 0 8 ⟨7, 0⟩).mp root
    exact ⟨s, e, ends, nonempty, stored 0 8 (by decide) nonempty, found, ciq,
      flagged _ e 0 8 found ciq,
      fun r e' found' ciq' => unshared r _ e' e 0 8 found' found ciq' ciq⟩
  · obtain ⟨s, ends, empty⟩ : ∃ s, run (smallConfig 2) {} (pausedRun.take 1) = .ok s ∧
        ∀ dev q, s.queues dev q = [] := by
      refine ⟨_, rfl, fun dev q => ?_⟩
      show update₂ (fun _ _ => []) 0 8 [] dev q = []
      rw [update₂_apply]
      split <;> rfl
    have aligned : Aligned s := by
      intro dev q p _ member
      rw [empty] at member
      cases member
    exact ⟨s, ends, (tables_coherent (reaches_run ends)).2.2.2.2 aligned _ nofun⟩

end Switch

end Pyrrha

import Mathlib.Algebra.BigOperators.Group.List.Basic
import Pyrrha.Switch.Run

/-!
Coherence of the congestion tables of a switch: the entries, the CIQ index of each port, the reverse
map `ciq_root_map` and the pause flags. Every event keeps them coherent.
-/

namespace Pyrrha
open Lib Relation

variable {n : ℕ} {cfg : Config n}

namespace Switch

/-- The tables name the same CIQs, their ids are registered queues with a pause flag, packets of a
CIQ are in a registered one, and a CIQ has the level of its root's entry. -/
structure Tables (s : Switch n) : Prop where
  root_iff : ∀ p c r, s.ciqRootMap p c = some r ↔ ∃ e, s.getEntry r = some e ∧ e.oportCiq p = some c
  range : ∀ p c r, s.ciqRootMap p c = some r → queueNum ≤ c ∧ c < s.nQueue p
  paused : ∀ p c r, s.ciqRootMap p c = some r → s.paused p (some c) ≠ none
  stored : ∀ p q, queueNum ≤ q → s.queues p q ≠ [] → s.ciqRootMap p q ≠ none
  bytes : ∀ p q, s.bytesInQueue p q = ((s.queues p q).map Packet.size).sum
  nQueue : ∀ p, queueNum ≤ s.nQueue p
  levels : ∀ p L c, c ∈ s.priorities p L → queueNum ≤ c ∧ c < s.nQueue p
  hops : ∀ p L c r e, c ∈ s.priorities p L → s.ciqRootMap p c = some r →
    s.getEntry r = some e → e.hop = L

theorem initial_tables : Tables ({} : Switch n) where
  root_iff := by simp [getEntry]
  range := by simp
  paused := by simp
  stored := by simp
  bytes := by simp
  nQueue := by simp
  levels := by simp
  hops := by simp

theorem tables_map {s : Switch n} (T : Tables s) {r : Spot} {e : CAMEntry n} {p : Fin n} {c : ℕ}
    (found : s.getEntry r = some e) (ciq : e.oportCiq p = some c) : s.ciqRootMap p c = some r :=
  (T.root_iff p c r).mpr ⟨e, found, ciq⟩

theorem tables_entry {s : Switch n} (T : Tables s) {r : Spot} {p : Fin n} {c : ℕ}
    (mapped : s.ciqRootMap p c = some r) : ∃ e, s.getEntry r = some e ∧ e.oportCiq p = some c :=
  (T.root_iff p c r).mp mapped

theorem tables_empty {s : Switch n} (T : Tables s) {p : Fin n} {c : ℕ}
    (h : s.bytesInQueue p c = 0) : s.queues p c = [] := by
  cases queue : s.queues p c with
  | nil => rfl
  | cons x rest =>
    have total := T.bytes p c
    have pos := x.size_pos
    rw [queue, List.map_cons, List.sum_cons] at total
    omega

theorem tables_fresh {s : Switch n} (T : Tables s) {p : Fin n} {c : ℕ} (h : s.nQueue p ≤ c) :
    s.ciqRootMap p c = none := by
  cases mapped : s.ciqRootMap p c with
  | none => rfl
  | some r =>
    have := (T.range p c r mapped).2
    omega

/-! ### Updates that keep the trees as they are -/

/-- `e'` occupies the same CIQs at the same level as `e`. -/
def SameTree (e e' : CAMEntry n) : Prop := e'.hop = e.hop ∧ e'.oportCiq = e.oportCiq

/-- `t` has the buffers of `s`, entries with the same trees, and no fewer pause flags. -/
structure TablesFrame (s t : Switch n) : Prop where
  entries : ∀ r, (t.getEntry r).map (fun e => (e.hop, e.oportCiq)) =
    (s.getEntry r).map (fun e => (e.hop, e.oportCiq))
  ciqRootMap : t.ciqRootMap = s.ciqRootMap
  paused : ∀ p c, s.paused p (some c) ≠ none → t.paused p (some c) ≠ none
  queues : t.queues = s.queues
  bytesInQueue : t.bytesInQueue = s.bytesInQueue
  nQueue : t.nQueue = s.nQueue
  priorities : t.priorities = s.priorities

theorem frame_entry {s t : Switch n} (F : TablesFrame s t) {r : Spot} {e : CAMEntry n}
    (found : t.getEntry r = some e) : ∃ e₀, s.getEntry r = some e₀ ∧ SameTree e₀ e := by
  have same := F.entries r
  rw [found, Option.map_some] at same
  obtain ⟨e₀, found₀, eq⟩ := Option.map_eq_some_iff.mp same.symm
  simp only [Prod.mk.injEq] at eq
  exact ⟨e₀, found₀, eq.1.symm, eq.2.symm⟩

theorem frame_symm_entry {s t : Switch n} (F : TablesFrame s t) {r : Spot} {e : CAMEntry n}
    (found : s.getEntry r = some e) : ∃ e', t.getEntry r = some e' ∧ SameTree e e' := by
  have same := F.entries r
  rw [found, Option.map_some] at same
  obtain ⟨e', found', eq⟩ := Option.map_eq_some_iff.mp same
  simp only [Prod.mk.injEq] at eq
  exact ⟨e', found', eq.1, eq.2⟩

theorem frame_tables {s t : Switch n} (T : Tables s) (F : TablesFrame s t) : Tables t where
  root_iff p c r := by
    rw [F.ciqRootMap, T.root_iff]
    constructor
    · rintro ⟨e, found, ciq⟩
      obtain ⟨e', found', same⟩ := frame_symm_entry F found
      exact ⟨e', found', by rw [same.2, ciq]⟩
    · rintro ⟨e', found', ciq⟩
      obtain ⟨e, found, same⟩ := frame_entry F found'
      exact ⟨e, found, by rw [← same.2, ciq]⟩
  range p c r h := by
    rw [F.ciqRootMap] at h
    simpa only [F.nQueue] using T.range p c r h
  paused p c r h := by
    rw [F.ciqRootMap] at h
    exact F.paused p c (T.paused p c r h)
  stored p q hq h := by
    rw [F.queues] at h
    simpa only [F.ciqRootMap] using T.stored p q hq h
  bytes p q := by rw [F.bytesInQueue, F.queues, T.bytes]
  nQueue p := by rw [F.nQueue]; exact T.nQueue p
  levels p L c h := by
    rw [F.priorities] at h
    simpa only [F.nQueue] using T.levels p L c h
  hops p L c r e h mapped found := by
    rw [F.priorities] at h
    rw [F.ciqRootMap] at mapped
    obtain ⟨e₀, found₀, same⟩ := frame_entry F found
    rw [same.1]
    exact T.hops p L c r e₀ h mapped found₀

theorem frame_setEntry {s : Switch n} {root : Spot} {e f : CAMEntry n}
    (found : s.getEntry root = some e) (same : SameTree e f) :
    TablesFrame s (s.setEntry root f) where
  entries r := by
    rw [getEntry_setEntry]
    split
    · rename_i eq
      rw [eq, found, Option.map_some, Option.map_some, same.1, same.2]
    · rfl
  ciqRootMap := rfl
  paused _ _ h := h
  queues := rfl
  bytesInQueue := rfl
  nQueue := rfl
  priorities := rfl

theorem frame_trans {s t u : Switch n} (F : TablesFrame s t) (G : TablesFrame t u) :
    TablesFrame s u where
  entries r := (G.entries r).trans (F.entries r)
  ciqRootMap := G.ciqRootMap.trans F.ciqRootMap
  paused p c h := G.paused p c (F.paused p c h)
  queues := G.queues.trans F.queues
  bytesInQueue := G.bytesInQueue.trans F.bytesInQueue
  nQueue := G.nQueue.trans F.nQueue
  priorities := G.priorities.trans F.priorities

/-- Updates of the upstream records, the signals sent and the admission counters. -/
theorem frame_rfl {s t : Switch n} (entries : t.congestionEntries = s.congestionEntries)
    (ciqRootMap : t.ciqRootMap = s.ciqRootMap) (paused : t.paused = s.paused)
    (queues : t.queues = s.queues) (bytesInQueue : t.bytesInQueue = s.bytesInQueue)
    (nQueue : t.nQueue = s.nQueue) (priorities : t.priorities = s.priorities) :
    TablesFrame s t where
  entries r := by simp only [getEntry, entries]
  ciqRootMap := ciqRootMap
  paused p c h := by rw [paused]; exact h
  queues := queues
  bytesInQueue := bytesInQueue
  nQueue := nQueue
  priorities := priorities

theorem frame_setPaused (s : Switch n) (p : Fin n) (c : Option ℕ) (b : Bool) :
    TablesFrame s (s.setPaused p c (some b)) where
  entries _ := rfl
  ciqRootMap := rfl
  paused x d h := by
    simp only [setPaused, update₂_apply]
    split
    · simp
    · exact h
  queues := rfl
  bytesInQueue := rfl
  nQueue := rfl
  priorities := rfl

theorem frame_send {s : Switch n} {root : Spot} {e f : CAMEntry n}
    (found : s.getEntry root = some e) (same : SameTree e f) (i : Fin n) (tag : CITag) :
    TablesFrame s ((s.sendCIPacket i tag).setEntry root f) := by
  have entry := frame_setEntry found same
  exact ⟨entry.entries, rfl, entry.paused, rfl, rfl, rfl, rfl⟩

theorem frame_mergeUpstreams {s : Switch n} {root : Spot} {e : CAMEntry n}
    (found : s.getEntry root = some e) (old : Spot) (moves : Fin n → Bool) :
    TablesFrame s (s.mergeUpstreams root e old moves) := by
  have entry := frame_setEntry (f := e.setCIQResumes moves) found ⟨rfl, rfl⟩
  exact ⟨entry.entries, rfl, entry.paused, rfl, rfl, rfl, rfl⟩

theorem frame_retire (cfg : Config n) (s : Switch n) (tag : CITag) {old : CAMEntry n} (p : Fin n)
    (found : s.getEntry tag.old = some old) : TablesFrame s (s.retireOldRoot cfg tag old p) := by
  unfold retireOldRoot
  extract_lets old' s₁ s₂ s₃
  have F₁ : TablesFrame s s₁ := frame_setEntry found ⟨rfl, rfl⟩
  have F₂ : TablesFrame s s₂ := by
    by_cases h : s₁.paused p (old'.oportCiq p) = some true
    · rw [show s₂ = s₁.setPaused p (old'.oportCiq p) (some false) from if_pos h]
      exact frame_trans F₁ (frame_setPaused s₁ p _ false)
    · rw [show s₂ = s₁ from if_neg h]
      exact F₁
  have F₃ : TablesFrame s s₃ := by
    cases found' : s₂.getEntry tag.root with
    | none =>
      rw [show s₃ = s₂ by simp only [s₃, found']]
      exact F₂
    | some e =>
      rw [show s₃ = s₂.mergeUpstreams tag.root e tag.old
        (passesMerge cfg old') by simp only [s₃, found']]
      exact frame_trans F₂ (frame_mergeUpstreams found' _ _)
  cases found' : s₃.getEntry tag.old with
  | none => exact F₃
  | some e => exact frame_trans F₃ (frame_setEntry found' ⟨rfl, rfl⟩)

/-! ### Updates that change a tree -/

theorem create_tables {s : Switch n} (T : Tables s) {root : Spot} {hop : ℕ}
    (absent : s.getEntry root = none) : Tables (s.setEntry root { hop := hop }) := by
  have entry : ∀ r e, (s.setEntry root { hop := hop }).getEntry r = some e →
      (r = root ∧ e.oportCiq = fun _ => none) ∨ (r ≠ root ∧ s.getEntry r = some e) := by
    intro r e found
    rw [getEntry_setEntry] at found
    split at found
    · rename_i eq
      cases found
      exact .inl ⟨eq, rfl⟩
    · rename_i ne
      exact .inr ⟨ne, found⟩
  refine ⟨fun p c r => ?_, T.range, T.paused, T.stored, T.bytes, T.nQueue, T.levels, ?_⟩
  · constructor
    · intro mapped
      obtain ⟨e, found, ciq⟩ := tables_entry T mapped
      have ne : r ≠ root := fun eq => by simp [eq, absent] at found
      exact ⟨e, by rw [getEntry_setEntry, if_neg ne, found], ciq⟩
    · rintro ⟨e, found, ciq⟩
      rcases entry r e found with ⟨_, none⟩ | ⟨_, found⟩
      · simp [none] at ciq
      · exact tables_map T found ciq
  · intro p L c r e level mapped found
    rcases entry r e found with ⟨rfl, _⟩ | ⟨_, found⟩
    · obtain ⟨e, present, _⟩ := tables_entry T mapped
      simp [absent] at present
    · exact T.hops p L c r e level mapped found

theorem releaseCIQ_map (s : Switch n) (root : Spot) (e : CAMEntry n) (p x : Fin n) (c d : ℕ) :
    (s.releaseCIQ root e p c).ciqRootMap x d = if x = p ∧ d = c then none else s.ciqRootMap x d :=
      rfl

theorem release_tables {s : Switch n} (T : Tables s) {root : Spot} {e e' : CAMEntry n}
    {p : Fin n} {c : ℕ}
    (found : s.getEntry root = some e) (same : SameTree e e') (ciq : e.oportCiq p = some c)
    (empty : s.bytesInQueue p c = 0) : Tables (s.releaseCIQ root e' p c) := by
  have mapped := tables_map T found ciq
  -- a record that survives is one of another CIQ
  have survives : ∀ x d r, (s.releaseCIQ root e' p c).ciqRootMap x d = some r →
      ¬(x = p ∧ d = c) ∧ s.ciqRootMap x d = some r := by
    intro x d r h
    rw [releaseCIQ_map] at h
    split at h
    · cases h
    · rename_i other
      exact ⟨other, h⟩
  refine ⟨fun x d r => ?_, fun x d r h => T.range x d r (survives x d r h).2, ?_, ?_,
    T.bytes, T.nQueue, T.levels, ?_⟩
  · constructor
    · intro h
      obtain ⟨other, h⟩ := survives x d r h
      obtain ⟨e₀, found₀, ciq₀⟩ := tables_entry T h
      rw [getEntry_releaseCIQ]
      split
      · rename_i eq
        rw [eq, found] at found₀
        obtain rfl := Option.some.inj found₀
        refine ⟨_, rfl, ?_⟩
        have ne : x ≠ p := by
          rintro rfl
          rw [ciq] at ciq₀
          exact other ⟨rfl, (Option.some.inj ciq₀).symm⟩
        simpa [CAMEntry.setCiq, ne, same.2] using ciq₀
      · exact ⟨e₀, found₀, ciq₀⟩
    · rintro ⟨e₀, found₀, ciq₀⟩
      rw [getEntry_releaseCIQ] at found₀
      split at found₀
      · rename_i eq
        obtain rfl := Option.some.inj found₀
        have ne : x ≠ p := by
          rintro rfl
          simp [CAMEntry.setCiq] at ciq₀
        rw [releaseCIQ_map, if_neg (fun h => ne h.1), eq]
        exact tables_map T found (by simpa [CAMEntry.setCiq, ne, same.2] using ciq₀)
      · rename_i ne
        have h := tables_map T found₀ ciq₀
        rw [releaseCIQ_map, if_neg, h]
        rintro ⟨rfl, rfl⟩
        rw [mapped] at h
        exact ne (Option.some.inj h).symm
  · intro x d r h
    obtain ⟨other, h⟩ := survives x d r h
    have key := T.paused x d r h
    have other' : ¬(x = p ∧ some d = some c) := fun h => other ⟨h.1, Option.some.inj h.2⟩
    rw [show (s.releaseCIQ root e' p c).paused x (some d) = s.paused x (some d) from
      update₂_of_ne _ _ other']
    exact key
  · intro x d hd nonempty
    rw [releaseCIQ_map]
    split
    · rename_i eq
      rw [eq.1, eq.2] at nonempty
      exact absurd (tables_empty T empty) nonempty
    · exact T.stored x d hd nonempty
  · intro x L d r e₀ level h found₀
    obtain ⟨_, h⟩ := survives x d r h
    rw [getEntry_releaseCIQ] at found₀
    split at found₀
    · rename_i eq
      obtain rfl := Option.some.inj found₀
      rw [eq] at h
      exact same.1.trans (T.hops x L d root e level h found)
    · exact T.hops x L d r e₀ level h found₀

theorem erase_tables {s : Switch n} (T : Tables s) {root : Spot} {e : CAMEntry n}
    (found : s.getEntry root = some e) (ciqs : ∀ p, e.oportCiq p = none) :
    Tables (s.eraseEntry root) := by
  have entry : ∀ r, (s.eraseEntry root).getEntry r = if r = root then none else s.getEntry r := by
    intro r
    simp [getEntry, eraseEntry, Function.update_apply]
  refine ⟨fun p c r => ?_, T.range, T.paused, T.stored, T.bytes, T.nQueue, T.levels, ?_⟩
  · constructor
    · intro mapped
      obtain ⟨e₀, found₀, ciq⟩ := tables_entry T mapped
      have ne : r ≠ root := by
        rintro rfl
        rw [found] at found₀
        obtain rfl := Option.some.inj found₀
        simp [ciqs p] at ciq
      exact ⟨e₀, by rw [entry, if_neg ne, found₀], ciq⟩
    · rintro ⟨e₀, found₀, ciq⟩
      rw [entry] at found₀
      split at found₀
      · cases found₀
      · exact tables_map T found₀ ciq
  · intro p L c r e₀ level mapped found₀
    rw [entry] at found₀
    split at found₀
    · cases found₀
    · exact T.hops p L c r e₀ level mapped found₀

theorem register_entries (s : Switch n) (root r : Spot) (e : CAMEntry n) (p : Fin n)
    (st : CIQStatus) (b : Bool) :
    (((s.registerRoot root e p).1.setEntry root
      ((s.registerRoot root e p).2.setStatus p st)).setPaused p
      (some (s.nQueue p)) (some b)).getEntry r =
        if r = root then some ((e.setCiq p (some (s.nQueue p))).setStatus p st)
          else s.getEntry r := by
  by_cases same : r = root <;>
    simp [same, getEntry, setPaused, setEntry, registerRoot, updateEgressAdmission,
      setEgress, setCiqRoot, registerCIQ]

theorem register_tables {s : Switch n} (T : Tables s) {root : Spot} {e : CAMEntry n} {p : Fin n}
    (found : s.getEntry root = some e) (fresh : e.oportCiq p = none) (st : CIQStatus) (b : Bool) :
    Tables (((s.registerRoot root e p).1.setEntry root
      ((s.registerRoot root e p).2.setStatus p st)).setPaused p (some (s.nQueue p)) (some b)) := by
  set t := ((s.registerRoot root e p).1.setEntry root
    ((s.registerRoot root e p).2.setStatus p st)).setPaused p (some (s.nQueue p)) (some b) with ht
  have none := tables_fresh T (le_refl (s.nQueue p))
  have map : ∀ x d, t.ciqRootMap x d = if x = p ∧ d = s.nQueue p then some root
      else s.ciqRootMap x d :=
    fun _ _ => rfl
  have entry : ∀ r, t.getEntry r =
      if r = root then some ((e.setCiq p (some (s.nQueue p))).setStatus p st)
        else s.getEntry r := by
    intro r
    exact register_entries s root r e p st b
  have queues : ∀ x d, t.queues x d = if x = p ∧ d = s.nQueue p then [] else s.queues x d :=
    fun _ _ => rfl
  have count : ∀ x, t.nQueue x = if x = p then s.nQueue p + 1 else s.nQueue x := by
    intro x
    simp [ht, setPaused, registerRoot, updateEgressAdmission, setEgress, setCiqRoot, setEntry,
      registerCIQ, Function.update_apply]
  have priorities : ∀ x L, t.priorities x L =
      if x = p ∧ L = e.hop then s.priorities p e.hop ++ [s.nQueue p] else s.priorities x L :=
        fun _ _ => rfl
  -- every old id is below the new one
  have old : ∀ x d, d < s.nQueue x → ¬(x = p ∧ d = s.nQueue p) := by
    rintro x d lt ⟨rfl, rfl⟩
    omega
  have grows : ∀ x d, d < s.nQueue x → d < t.nQueue x := by
    intro x d lt
    rw [count]
    split
    · rename_i eq
      rw [eq] at lt
      omega
    · exact lt
  refine ⟨fun x d r => ?_, fun x d r h => ?_, fun x d r h => ?_, fun x d hd nonempty => ?_,
    fun x d => ?_, fun x => ?_, fun x L d h => ?_, fun x L d r e₀ level h found₀ => ?_⟩
  · rw [map, entry]
    by_cases new : x = p ∧ d = s.nQueue p
    · obtain ⟨rfl, rfl⟩ := new
      simp only [and_self, if_true, Option.some.injEq]
      constructor
      · rintro rfl
        exact ⟨_, if_pos rfl, by simp [CAMEntry.setStatus, CAMEntry.setCiq]⟩
      · rintro ⟨e₀, found₀, ciq₀⟩
        split at found₀
        · rename_i eq
          exact eq.symm
        · exact absurd (tables_map T found₀ ciq₀) (by simp [none])
    · rw [if_neg new, T.root_iff]
      by_cases eq : r = root
      · subst eq
        simp only [found, Option.some.injEq, exists_eq_left', if_true]
        by_cases ne : x = p
        · subst ne
          have other : s.nQueue x ≠ d := fun h => new ⟨rfl, h.symm⟩
          simp [CAMEntry.setStatus, CAMEntry.setCiq, fresh, other]
        · simp [CAMEntry.setStatus, CAMEntry.setCiq, ne]
      · simp [eq]
  · rw [map] at h
    split at h
    · rename_i new
      rw [count, if_pos new.1, new.2]
      exact ⟨T.nQueue p, by omega⟩
    · have range := T.range x d r h
      exact ⟨range.1, grows x d range.2⟩
  · rw [map] at h
    split at h
    · rename_i new
      simp [ht, setPaused, new]
    · rename_i other
      have other' : ¬(x = p ∧ some d = some (s.nQueue p)) :=
        fun h => other ⟨h.1, Option.some.inj h.2⟩
      rw [show t.paused x (some d) = s.paused x (some d) from update₂_of_ne _ _ other']
      exact T.paused x d r h
  · rw [queues] at nonempty
    rw [map]
    split at nonempty
    · exact absurd rfl nonempty
    · rename_i other
      rw [if_neg other]
      exact T.stored x d hd nonempty
  · rw [queues, show t.bytesInQueue x d = if x = p ∧
      d = s.nQueue p then 0 else s.bytesInQueue x d from rfl]
    split
    · rfl
    · exact T.bytes x d
  · rw [count]
    have := T.nQueue p
    split
    · omega
    · exact T.nQueue x
  · rw [priorities] at h
    split at h
    · rename_i new
      rcases List.mem_append.mp h with h | h
      · have range := T.levels p e.hop d h
        rw [new.1]
        exact ⟨range.1, grows p d range.2⟩
      · obtain rfl := List.mem_singleton.mp h
        rw [count, if_pos new.1]
        exact ⟨T.nQueue p, by omega⟩
    · have range := T.levels x L d h
      exact ⟨range.1, grows x d range.2⟩
  · rw [priorities] at level
    rw [map] at h
    rw [entry] at found₀
    -- the entry that a surviving record belongs to has kept its hop
    have kept : ∀ L, s.ciqRootMap x d = some r → d ∈ s.priorities x L → e₀.hop = L := by
      intro L mapped level
      split at found₀
      · rename_i eq
        obtain rfl := Option.some.inj found₀
        exact T.hops x L d r e level mapped (by rw [eq, found])
      · exact T.hops x L d r e₀ level mapped found₀
    by_cases new : x = p ∧ d = s.nQueue p
    · obtain ⟨rfl, rfl⟩ := new
      simp only [and_self, if_true, Option.some.injEq] at h
      subst h
      rw [if_pos rfl] at found₀
      obtain rfl := Option.some.inj found₀
      split at level
      · rename_i eq
        exact eq.2.symm
      · have range := T.levels x L _ level
        omega
    · rw [if_neg new] at h
      split at level
      · rename_i eq
        obtain ⟨rfl, rfl⟩ := eq
        rcases List.mem_append.mp level with level | level
        · exact kept _ h level
        · exact absurd ⟨rfl, List.mem_singleton.mp level⟩ new
      · exact kept L h level

/-! ### Packets -/

theorem push_tables {s : Switch n} (T : Tables s) {dev : Fin n} {p : Packet n} {q : ℕ}
    (place : queueNum ≤ q → s.ciqRootMap dev q ≠ none) : Tables (s.pushQueue dev p q) := by
  refine ⟨T.root_iff, T.range, T.paused, fun x d hd nonempty => ?_, fun x d => ?_,
    T.nQueue, T.levels, T.hops⟩
  · by_cases at_q : x = dev ∧ d = q
    · obtain ⟨rfl, rfl⟩ := at_q
      exact place hd
    · rw [show (s.pushQueue dev p q).queues x d =
        s.queues x d from update₂_of_ne _ _ at_q] at nonempty
      exact T.stored x d hd nonempty
  · simp only [pushQueue, update₂_apply]
    split
    · simp [T.bytes dev q]
    · exact T.bytes x d

theorem size_eraseIdx {l : List (Packet n)} {k : ℕ} {p : Packet n} (h : l[k]? = some p) :
    ((l.eraseIdx k).map Packet.size).sum + p.size = (l.map Packet.size).sum := by
  obtain ⟨lt, rfl⟩ := List.getElem?_eq_some_iff.mp h
  have perm := (List.getElem_cons_eraseIdx_perm lt).map Packet.size
  have total := perm.sum_eq
  rw [List.map_cons, List.sum_cons] at total
  omega

theorem pop_tables {s : Switch n} (T : Tables s) {dev : Fin n} {p : Packet n} {q k : ℕ}
    (head : (s.queues dev q)[k]? = some p) : Tables (s.popQueue dev q k p) := by
  refine ⟨T.root_iff, T.range, T.paused, fun x d hd nonempty => ?_, fun x d => ?_,
    T.nQueue, T.levels, T.hops⟩
  · by_cases at_q : x = dev ∧ d = q
    · obtain ⟨rfl, rfl⟩ := at_q
      refine T.stored x d hd fun empty => ?_
      simp [empty] at head
    · rw [show (s.popQueue dev q k p).queues x d =
        s.queues x d from update₂_of_ne _ _ at_q] at nonempty
      exact T.stored x d hd nonempty
  · simp only [popQueue, update₂_apply]
    split
    · have total := size_eraseIdx head
      rw [T.bytes dev q]
      omega
    · exact T.bytes x d

theorem count_tables {s : Switch n} (T : Tables s) {root : Spot} {e : CAMEntry n}
    (found : s.getEntry root = some e) (i : Fin n) (v : ℕ) :
    Tables (s.setEntry root (e.setCounter i v)) :=
  frame_tables T (frame_setEntry found ⟨rfl, rfl⟩)

/-! ### Control updates -/

theorem packetCtl_tables {s t : Switch n} (T : Tables s) (h : PacketCtl cfg s t) : Tables t := by
  cases h with
  | rootPause => exact frame_tables T (frame_rfl rfl rfl rfl rfl rfl rfl rfl)
  | rootResume e q =>
    refine frame_tables T ?_
    unfold notifyDequeueFromOQ
    split <;> exact frame_rfl rfl rfl rfl rfl rfl rfl rfl
  | childPause root e i p found =>
    exact frame_tables T (frame_send (f := e.setCIQPause i) found ⟨rfl, rfl⟩ i _)
  | childResume root e i p found =>
    exact frame_tables T (frame_send (f := e.setCIQResume i) found ⟨rfl, rfl⟩ i _)
  | dealloc root e p c found ciq empty =>
    have sent : Tables (s.sendCIPacket p (deallocTag root)) :=
      frame_tables T (frame_rfl rfl rfl rfl rfl rfl rfl rfl)
    exact release_tables sent (e := e) found ⟨rfl, rfl⟩ ciq empty
  | freeMerged root e p c found ciq empty => exact release_tables T found ⟨rfl, rfl⟩ ciq empty
  | erase root e found ciqs => exact erase_tables T found ciqs

theorem packetCtls_tables {s t : Switch n} (T : Tables s) (h : PacketCtls cfg s t) : Tables t :=
  packetCtls_preserve (fun _ _ => packetCtl_tables) T h

theorem signalCtl_tables {s t : Switch n} {tag : CITag} {p : Fin n} (T : Tables s)
    (h : SignalCtl cfg tag p s t) : Tables t := by
  cases h with
  | create type absent => exact create_tables T absent
  | register e st b found fresh =>
    refine register_tables T found ?_ st b
    simp only [registers, Bool.and_eq_true, decide_eq_true_eq] at fresh
    exact fresh.2
  | setStatus e st b found =>
    have status := frame_setEntry (f := e.setStatus p st) found ⟨rfl, rfl⟩
    exact frame_tables T (frame_trans status (frame_setPaused _ p _ b))
  | startMerge e found =>
    have merged := frame_mergeUpstreams found ⟨cfg.mId, p⟩ fun i =>
      decide (s.upstreamPaused p i ≠ none)
    exact frame_tables T (frame_trans merged (frame_rfl rfl rfl rfl rfl rfl rfl rfl))
  | retire e old found foundOld => exact frame_tables T (frame_retire cfg s tag p foundOld)
  | childDealloc e found => exact frame_tables T (frame_setEntry found ⟨rfl, rfl⟩)
  | rootDealloc => exact frame_tables T (frame_rfl rfl rfl rfl rfl rfl rfl rfl)

theorem signalCtl_queues {s t : Switch n} {tag : CITag} {p : Fin n} (T : Tables s)
    (h : SignalCtl cfg tag p s t) : t.queues = s.queues ∧ t.departed = s.departed := by
  cases h with
  | register e st b =>
    refine ⟨?_, rfl⟩
    -- the id of the new queue was not in use
    have unused : s.queues p (s.nQueue p) = [] := by
      by_contra nonempty
      exact T.stored p (s.nQueue p) (T.nQueue p) nonempty (tables_fresh T le_rfl)
    funext x c
    by_cases new : x = p ∧ c = s.nQueue p
    · rw [new.1, new.2, unused]
      exact update₂_same _ _ _ _
    · exact update₂_of_ne s.queues [] new
  | retire e old found foundOld =>
    refine ⟨(frame_retire cfg s tag p foundOld).queues, ?_⟩
    rw [retireOldRoot_eq p found foundOld]
    unfold unpauseOld
    split <;> rfl
  | _ => exact ⟨rfl, rfl⟩

theorem signalCtls_tables {s t : Switch n} {tag : CITag} {p : Fin n} (T : Tables s)
    (h : SignalCtls cfg tag p s t) : Tables t :=
  signalCtls_preserve (fun _ _ => packetCtl_tables) (fun _ _ => signalCtl_tables) T h

theorem signalCtls_queues {s t : Switch n} {tag : CITag} {p : Fin n} (T : Tables s)
    (h : SignalCtls cfg tag p s t) : t.queues = s.queues ∧ t.departed = s.departed := by
  refine (signalCtls_preserve (I := fun u => Tables u ∧ u.queues = s.queues ∧
    u.departed = s.departed)
    (fun u v before last => ?_) (fun u v before last => ?_) ⟨T, rfl, rfl⟩ h).2
  · have same := packetCtl_buffers last
    exact ⟨packetCtl_tables before.1 last, same.queues.trans before.2.1,
      same.departed.trans before.2.2⟩
  · have same := signalCtl_queues before.1 last
    exact ⟨signalCtl_tables before.1 last, same.1.trans before.2.1, same.2.trans before.2.2⟩

theorem notifyEnqueue_tables {s t : Switch n} {idx : Fin n} {q : ℕ} {p : Packet n} (T : Tables s)
    (h : s.notifyEnqueue cfg idx q p = .ok t) : Tables t := by
  rcases notifyEnqueue_ctl h with ⟨_, steps⟩ | ⟨_, root, e, _, found, steps⟩
  · exact packetCtls_tables T steps
  · exact packetCtls_tables (count_tables T found _ _) steps

theorem notifyDequeue_tables {s t : Switch n} {idx : Fin n} {q : ℕ} {p : Packet n} (T : Tables s)
    (h : s.notifyDequeue cfg idx q p = .ok t) : Tables t := by
  rcases notifyDequeue_ctl h with ⟨_, steps⟩ | ⟨_, root, e, _, found, steps⟩
  · exact packetCtls_tables T steps
  · exact packetCtls_tables (count_tables T found _ _) steps

theorem egress_tables {s : Switch n} (T : Tables s) (dev : Fin n) (q bytes : ℕ) :
    Tables (s.setEgress dev q bytes) := frame_tables T (frame_rfl rfl rfl rfl rfl rfl rfl rfl)

/-! ### Events -/

theorem notifyEnqueue_map {s t : Switch n} {idx : Fin n} {q : ℕ} {p : Packet n}
    (h : s.notifyEnqueue cfg idx q p = .ok t) :
    t.ciqRootMap = s.ciqRootMap ∧ (queueNum ≤ q → s.ciqRootMap idx q ≠ none) := by
  unfold notifyEnqueue at h
  split at h
  · rename_i zero
    cases h
    exact ⟨rfl, by simp [zero, queueNum]⟩
  split at h
  · rename_i oq
    cases h
    refine ⟨?_, fun ciq => by omega⟩
    unfold notifyEnqueueIntoOQ
    split
    · rfl
    · split <;> rfl
  · unfold notifyEnqueueIntoCIQ at h
    split at h
    · cases h
    rename_i root mapped
    split at h
    · cases h
    cases h
    refine ⟨?_, fun _ => by simp [mapped]⟩
    unfold pauseChild
    split <;> rfl

/-- `SendToDev` accepts `p`: it is admitted, and the egress queue takes it. -/
def accepts (cfg : Config n) (s : Switch n) (idx : Fin n) (p : Packet n) : Bool :=
  match s.matchQ cfg idx p with
  | .error _ => false
  | .ok q => !p.isFrame && s.admits cfg idx q p && decide (s.bytesInQueueTotal idx + p.size <
      cfg.maxBytes)

theorem acceptPacket_accepts {s t : Switch n} {idx : Fin n} {p : Packet n} (data : ¬p.isFrame)
    (h : s.acceptPacket cfg idx p = .ok t) :
    t.ciqRootMap = s.ciqRootMap ∧ t.departed = s.departed ∧
    ((s.accepts cfg idx p = false ∧ t.queues = s.queues) ∨
     (s.accepts cfg idx p = true ∧ ∃ q, s.matchQ cfg idx p = .ok q ∧
        t.queues = (s.pushQueue idx p q).queues)) := by
  have frame : p.isFrame = false := by simpa using data
  unfold acceptPacket at h
  obtain ⟨q, matched, h⟩ := bind_ok h
  have accepts : s.accepts cfg idx p =
      (s.admits cfg idx q p && decide (s.bytesInQueueTotal idx + p.size < cfg.maxBytes)) := by
    simp only [accepts, matched, frame]
    rfl
  split at h
  · rename_i admitted
    split at h
    · cases h
    obtain ⟨u, entered, h⟩ := bind_ok h
    cases h
    have same := notifyEnqueue_buffers entered
    have map : u.ciqRootMap = s.ciqRootMap := (notifyEnqueue_map entered).1
    have total : u.bytesInQueueTotal = s.bytesInQueueTotal := same.bytesInQueueTotal
    have queues : u.queues = s.queues := same.queues
    have departed : u.departed = s.departed := same.departed
    simp only [switchSend, doEnqueue, total, accepts, admitted]
    split
    · rename_i fits
      refine ⟨map, departed, .inr ⟨by simpa using fits, q, matched, ?_⟩⟩
      simp only [Option.getD_some, pushQueue, queues]
    · rename_i full
      exact ⟨map, departed, .inl ⟨by simpa using full, queues⟩⟩
  · rename_i refused
    cases h
    exact ⟨rfl, rfl, .inl ⟨by simp [accepts, refused], rfl⟩⟩

theorem acceptPacket_tables {s t : Switch n} {idx : Fin n} {p : Packet n} (T : Tables s)
    (h : s.acceptPacket cfg idx p = .ok t) : Tables t := by
  rcases acceptPacket_cases h with rfl | ⟨q, u, _, _, _, entered, rfl⟩
  · exact T
  have notified := notifyEnqueue_tables (egress_tables T idx q _) entered
  rcases switchSend_cases cfg u idx q p with same | pushed
  · rw [same]
    exact notified
  · obtain ⟨map, place⟩ := notifyEnqueue_map entered
    rw [pushed]
    exact push_tables notified (by rw [map]; exact place)

theorem sent_tables {s : Switch n} (T : Tables s) {dev : Fin n} {q k : ℕ} {p : Packet n}
    (head : (s.queues dev q)[k]? = some p) :
    Tables ((s.popQueue dev q k p).transmitStart dev q p) :=
  frame_tables (pop_tables T head) (frame_rfl rfl rfl rfl rfl rfl rfl rfl)

theorem dequeueAndTransmit_tables {s t : Switch n} {dev : Fin n} {pick : Option (ℕ × ℕ)}
    (T : Tables s) (h : s.dequeueAndTransmit cfg dev pick = .ok t) : Tables t := by
  rcases dequeueAndTransmit_cases h with rfl | ⟨q, k, p, _, _, head, left⟩
  · exact T
  rcases switchNotifyDequeue_cases left with ⟨_, rfl⟩ | ⟨_, _, u, removed, notified⟩
  · exact sent_tables T head
  · obtain ⟨_, rfl⟩ := removeFromEgressAdmission_ok removed
    exact notifyDequeue_tables (egress_tables (sent_tables T head) dev q _) notified

theorem head_tables {s : Switch n} (T : Tables s) {dev : Fin n} {q : ℕ} {p : Packet n}
    {rest : List (Packet n)} (head : s.queues dev q = p :: rest) : Tables (s.popQueue dev q 0 p) :=
  pop_tables T (by rw [head]; rfl)

theorem moved_tables {s u v w : Switch n} {dev : Fin n} {q nextQ : ℕ} {p : Packet n} (T : Tables s)
    (left : s.notifyDequeue cfg dev q p = .ok u)
    (removed : u.removeFromEgressAdmission dev q p.size = .ok v)
    (entered : (v.pushQueue dev p nextQ).notifyEnqueue cfg dev nextQ p = .ok w) :
    Tables (v.pushQueue dev p nextQ) := by
  obtain ⟨_, rfl⟩ := removeFromEgressAdmission_ok removed
  have out := egress_tables (notifyDequeue_tables T left) dev q (u.egressBytes dev q - p.size)
  exact push_tables out (notifyEnqueue_map entered).2

theorem hierMove_tables {s t : Switch n} {dev : Fin n} {level q : ℕ} {b b' : Bool} (T : Tables s)
    (h : hierMove cfg dev level (s, b) q = .ok (t, b')) : Tables t := by
  rcases hierMove_cases h with rfl | ⟨p, rest, nextQ, u, v, w, head, _, left, removed, entered, rfl⟩
  · exact T
  have pushed := moved_tables (head_tables T head) left removed entered
  exact egress_tables (notifyEnqueue_tables pushed entered) dev nextQ _

theorem frame_switchSend (cfg : Config n) {s : Switch n} (T : Tables s) (dev : Fin n)
    (p : Packet n) : Tables (s.switchSend cfg dev 0 p) := by
  rcases switchSend_cases cfg s dev 0 p with same | pushed
  · rw [same]
    exact T
  · rw [pushed]
    exact push_tables T (by simp [queueNum])

theorem step_tables {s t : Switch n} {ev : Event n} (T : Tables s) (h : s.step cfg ev = .ok t) :
    Tables t := by
  refine step_induct (I := Tables) ⟨?_, ?_, ?_, ?_, ?_⟩ T h
  · exact fun idx p pick u _ _ accepted => acceptPacket_tables T accepted
  · exact fun u v dev pick before sent => dequeueAndTransmit_tables before sent
  · exact fun u v dev level q b b' before _ moved => hierMove_tables before moved
  · exact fun tag p pick u _ steps => signalCtls_tables T steps
  · exact fun dev p _ => frame_switchSend cfg T dev p

theorem reachable_tables {allowed : Switch n → Event n → Switch n → Prop} {s : Switch n}
    (h : Reachable cfg allowed s) : Tables s := by
  induction h with
  | initial => exact initial_tables
  | step _ call _ ih => exact step_tables ih call

theorem operated_tables {s t : Switch n} {op : Op n} (T : Tables s) (h : Operated cfg s op t) :
    Tables t := by
  cases h with
  | accept _ call => exact acceptPacket_tables T call
  | transmit call => exact dequeueAndTransmit_tables T call
  | move _ call => exact hierMove_tables T call
  | signal call =>
    obtain ⟨u, pick', steps, sent⟩ := receiveCI_ctl call
    exact dequeueAndTransmit_tables (signalCtls_tables T steps) sent
  | frame => exact frame_switchSend cfg T _ _

theorem operates_tables {allowed : Switch n → Op n → Prop} {s : Switch n}
    (h : Operates cfg allowed s) : Tables s := by
  induction h with
  | initial => exact initial_tables
  | step _ _ call ih => exact operated_tables ih call

end Switch

end Pyrrha

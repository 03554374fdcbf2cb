import Pyrrha.Switch.Culprits

/-!
What waits for a congestion root on a port, and which operations change it: a push into its CIQ, a
pop from its CIQ, and nothing else.
-/

namespace Pyrrha
open Lib Relation

variable {n : ℕ} {cfg : Config n}

namespace Switch

/-! ### The CIQ of a root -/

/-- The packets in the CIQ of `r` on `dev`. -/
def waiting (s : Switch n) (dev : Fin n) (r : Spot) : List (Packet n) :=
  match s.getEntry r with
  | none => []
  | some e =>
    match e.oportCiq dev with
    | none => []
    | some c => s.queues dev c

theorem waiting_mapped {s : Switch n} (T : Tables s) {dev : Fin n} {c : ℕ} {r : Spot}
    (mapped : s.ciqRootMap dev c = some r) : s.waiting dev r = s.queues dev c := by
  obtain ⟨e, found, ciq⟩ := tables_entry T mapped
  simp only [waiting, found, ciq]

theorem waiting_absent {s : Switch n} {dev : Fin n} {r : Spot}
    (absent : ∀ e, s.getEntry r = some e → e.oportCiq dev = none) : s.waiting dev r = [] := by
  unfold waiting
  split
  · rfl
  · rename_i e found
    simp only [absent e found]

theorem waiting_unmapped {s : Switch n} (T : Tables s) {dev : Fin n} {r : Spot}
    (unmapped : ∀ c, s.ciqRootMap dev c ≠ some r) : s.waiting dev r = [] := by
  refine waiting_absent fun e found => ?_
  by_contra ciq
  obtain ⟨c, ciq⟩ := Option.ne_none_iff_exists'.mp ciq
  exact unmapped c (tables_map T found ciq)

theorem tables_ciq {s : Switch n} (T : Tables s) {dev : Fin n} {c d : ℕ} {r : Spot}
    (h : s.ciqRootMap dev c = some r) (k : s.ciqRootMap dev d = some r) : c = d := by
  obtain ⟨e, found, ciq⟩ := tables_entry T h
  obtain ⟨e', found', ciq'⟩ := tables_entry T k
  rw [found] at found'
  obtain rfl := Option.some.inj found'
  rw [ciq] at ciq'
  exact Option.some.inj ciq'

/-- What waits for a root is the same in two states that agree on the CIQs with packets in them. -/
theorem waiting_congr {s t : Switch n} (T : Tables s) (T' : Tables t) {dev : Fin n}
    (queues : t.queues dev = s.queues dev)
    (map : ∀ c r, s.queues dev c ≠ [] → (t.ciqRootMap dev c = some r ↔ s.ciqRootMap dev c = some r))
    (r : Spot) : t.waiting dev r = s.waiting dev r := by
  by_cases here : ∃ c, s.queues dev c ≠ [] ∧ s.ciqRootMap dev c = some r
  · obtain ⟨c, nonempty, mapped⟩ := here
    rw [waiting_mapped T mapped, waiting_mapped T' ((map c r nonempty).mpr mapped), queues]
  · -- otherwise nothing waits for `r` in either state
    have empty : ∀ u : Switch n, Tables u → u.queues dev = s.queues dev →
        (∀ c, s.queues dev c ≠ [] → u.ciqRootMap dev c ≠ some r) → u.waiting dev r = [] := by
      intro u U same none
      by_cases mapped : ∃ c, u.ciqRootMap dev c = some r
      · obtain ⟨c, mapped⟩ := mapped
        rw [waiting_mapped U mapped, same]
        by_contra nonempty
        exact none c nonempty mapped
      · exact waiting_unmapped U fun c h => mapped ⟨c, h⟩
    rw [empty s T rfl fun c nonempty h => here ⟨c, nonempty, h⟩,
      empty t T' queues fun c nonempty h => here ⟨c, nonempty, (map c r nonempty).mp h⟩]

theorem waiting_shrinks {s t : Switch n} (T : Tables s) (T' : Tables t) (M : MapShrinks s t)
    {dev : Fin n}
    (queues : t.queues dev = s.queues dev) (r : Spot) : t.waiting dev r = s.waiting dev r := by
  refine waiting_congr T T' queues (fun c r nonempty => ⟨M dev c r, fun mapped => ?_⟩) r
  have ciq := (T.range dev c r mapped).1
  obtain ⟨r', mapped'⟩ := Option.ne_none_iff_exists'.mp (T'.stored dev c ciq (by rw [queues]; exact nonempty))
  have before := M dev c r' mapped'
  rw [mapped] at before
  rw [mapped', ← before]

theorem waiting_push {s t : Switch n} (T : Tables s) (T' : Tables t) {dev : Fin n} {q : ℕ}
    {p : Packet n}
    (map : t.ciqRootMap = s.ciqRootMap) (queues : t.queues = (s.pushQueue dev p q).queues)
    (r : Spot) : t.waiting dev r = if s.ciqRootMap dev q = some r then s.waiting dev r ++ [p]
      else s.waiting dev r := by
  have at_queue : ∀ c, t.queues dev c = if c = q then s.queues dev q ++ [p]
      else s.queues dev c := by
    intro c
    rw [queues]
    simp [pushQueue, update₂_apply]
  by_cases mapped : ∃ c, s.ciqRootMap dev c = some r
  · obtain ⟨c, mapped⟩ := mapped
    rw [waiting_mapped T' (show t.ciqRootMap dev c = some r by rw [map, mapped]),
      waiting_mapped T mapped, at_queue]
    by_cases eq : c = q
    · subst eq
      simp [mapped]
    · have other : s.ciqRootMap dev q ≠ some r := fun h => eq (tables_ciq T mapped h)
      simp [eq, other]
  · have none : ∀ c, s.ciqRootMap dev c ≠ some r := fun c h => mapped ⟨c, h⟩
    rw [if_neg (none q), waiting_unmapped T none, waiting_unmapped T' fun c => by rw [map]; exact none c]

theorem waiting_pop {s : Switch n} (T : Tables s) {dev : Fin n} {q : ℕ} {p : Packet n}
    {rest : List (Packet n)} (head : s.queues dev q = p :: rest) (r : Spot) :
    (s.popQueue dev q 0 p).waiting dev r = if s.ciqRootMap dev q = some r then rest
      else s.waiting dev r := by
  have T' := head_tables T head
  have at_queue : ∀ c, (s.popQueue dev q 0 p).queues dev c = if c = q then rest
      else s.queues dev c := by
    intro c
    simp [popQueue, update₂_apply, head]
  by_cases mapped : ∃ c, s.ciqRootMap dev c = some r
  · obtain ⟨c, mapped⟩ := mapped
    rw [waiting_mapped T' (show (s.popQueue dev q 0 p).ciqRootMap dev c = some r from mapped),
      waiting_mapped T mapped, at_queue]
    by_cases eq : c = q
    · subst eq
      simp [mapped]
    · have other : s.ciqRootMap dev q ≠ some r := fun h => eq (tables_ciq T mapped h)
      simp [eq, other]
  · have none : ∀ c, s.ciqRootMap dev c ≠ some r := fun c h => mapped ⟨c, h⟩
    rw [if_neg (none q), waiting_unmapped T none, waiting_unmapped T' none]

theorem waiting_output {s : Switch n} (T : Tables s) {dev : Fin n} {q : ℕ}
    (oq : q < queueNum) (k : ℕ)
    (p : Packet n) (x : Fin n) (r : Spot) : (s.popQueue dev q k p).waiting x r = s.waiting x r := by
  unfold waiting
  cases found : s.getEntry r with
  | none => rw [show (s.popQueue dev q k p).getEntry r = none from found]
  | some e =>
    rw [show (s.popQueue dev q k p).getEntry r = some e from found]
    cases ciq : e.oportCiq x with
    | none => simp only [ciq]
    | some c =>
      have high := tables_high T found x c ciq
      simp only [ciq]
      exact update₂_of_ne _ _ fun h => by omega

/-! ### Control updates leave it alone -/

/-- A signal does not touch the records of CIQs with packets in them. -/
theorem signalCtl_map {s t : Switch n} {tag : CITag} {p : Fin n} (T : Tables s)
    (h : SignalCtl cfg tag p s t) (dev : Fin n) (c : ℕ) (r : Spot)
    (nonempty : s.queues dev c ≠ []) :
    t.ciqRootMap dev c = some r ↔ s.ciqRootMap dev c = some r := by
  cases h with
  | register e st b =>
    have other : ¬(dev = p ∧ c = s.nQueue p) := by
      rintro ⟨rfl, rfl⟩
      exact T.stored dev (s.nQueue dev) (T.nQueue dev) nonempty (tables_fresh T le_rfl)
    exact Eq.congr_left (update₂_of_ne s.ciqRootMap (some tag.root) other)
  | retire e old found foundOld => rw [(frame_retire cfg s tag p foundOld).ciqRootMap]
  | _ => exact Iff.rfl

theorem packetCtl_waiting {s t : Switch n} (T : Tables s) (h : PacketCtl cfg s t) (dev : Fin n)
    (r : Spot) : t.waiting dev r = s.waiting dev r :=
  waiting_shrinks T (packetCtl_tables T h) (packetCtl_map h)
    (by rw [(packetCtl_buffers h).queues]) r

theorem signalCtl_waiting {s t : Switch n} {tag : CITag} {p : Fin n} (T : Tables s)
    (h : SignalCtl cfg tag p s t) (dev : Fin n) (r : Spot) : t.waiting dev r = s.waiting dev r :=
  waiting_congr T (signalCtl_tables T h) (by rw [(signalCtl_queues T h).1])
    (signalCtl_map T h dev) r

theorem signalCtls_waiting {s t : Switch n} {tag : CITag} {p : Fin n} (T : Tables s)
    (h : SignalCtls cfg tag p s t) (dev : Fin n) (r : Spot) : t.waiting dev r = s.waiting dev r :=
  (signalCtls_preserve (I := fun u => Tables u ∧ u.waiting dev r = s.waiting dev r)
    (fun _ _ before last => ⟨packetCtl_tables before.1 last,
      (packetCtl_waiting before.1 last dev r).trans before.2⟩)
    (fun _ _ before last => ⟨signalCtl_tables before.1 last,
      (signalCtl_waiting before.1 last dev r).trans before.2⟩) ⟨T, rfl⟩ h).2

theorem transmit_waiting {s t : Switch n} (T : Tables s) {dev : Fin n} {pick : Option (ℕ × ℕ)}
    (h : s.dequeueAndTransmit cfg dev pick = .ok t) (x : Fin n) (r : Spot) :
    t.waiting x r = s.waiting x r := by
  have T' := dequeueAndTransmit_tables T h
  rcases dequeueAndTransmit_cases h with rfl | ⟨q, k, p, oq, _, head, left⟩
  · rfl
  rcases switchNotifyDequeue_cases left with ⟨_, rfl⟩ | ⟨_, _, u, removed, notified⟩
  · exact waiting_output T oq k p x r
  · obtain ⟨_, rfl⟩ := removeFromEgressAdmission_ok removed
    have same := notifyDequeue_buffers notified
    have steps : t.waiting x r = (s.popQueue dev q k p).waiting x r :=
      waiting_shrinks (pop_tables T head) T'
        (fun y d r mapped => notifyDequeue_map notified y d r mapped) (by rw [same.queues]; rfl) r
    rw [steps, waiting_output T oq k p x r]

end Switch

end Pyrrha

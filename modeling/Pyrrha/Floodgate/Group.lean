import Pyrrha.Floodgate.Voq
import Pyrrha.Lib.Checked

/-!
The invariant of a `VOQGroup`: the packets of a destination are in the VOQ `FindVOQId` names; with
dynamic hashing no VOQ is empty, and a destination has a VOQ only while one of its packets waits
there.
-/

namespace Pyrrha
open Lib

namespace Floodgate

namespace Group

variable {c : VoqConfig} {G G' : Group} {dst voqId : ℕ}

structure Valid (c : VoqConfig) (G : Group) : Prop where
  located : ∀ v, ∀ p ∈ G.pkts v, G.findVOQId c p.dst = some v
  occupied : c.dynamicHash = true → ∀ v, G.voqs v ≠ some []
  mapped : c.dynamicHash = true → ∀ d v, G.dst2voq d = some v → v < c.voqLimit ∧
    ∃ p ∈ G.pkts v, p.dst = d

theorem valid_empty (c : VoqConfig) : ({} : Group).Valid c :=
  ⟨fun _ _ member => (List.not_mem_nil member).elim, fun _ _ => nofun, fun _ _ _ => nofun⟩

theorem pkts_isSome (h : G.pkts voqId ≠ []) : (G.voqs voqId).isSome = true := by
  unfold pkts at h
  cases known : G.voqs voqId with
  | none => exact absurd (by rw [known]; rfl) h
  | some l => rfl

theorem findVOQId_dynamic (dynamic : c.dynamicHash = true) : G.findVOQId c dst = G.dst2voq dst := by
  have limited := c.limited dynamic
  rw [findVOQId, if_neg (by omega), if_pos dynamic]

theorem findVOQId_static (dst : ℕ) (static : c.dynamicHash = false) :
    ∃ v, (∀ G : Group, G.findVOQId c dst = some v) ∧ (c.voqLimit = 0 → v = dst) ∧
    (0 < c.voqLimit → v < c.voqLimit) := by
  by_cases unlimited : c.voqLimit = 0
  · refine ⟨dst, fun G => if_pos unlimited, fun _ => rfl, fun pos => ?_⟩
    omega
  · refine ⟨apHash dst % c.voqLimit, fun G => ?_, fun zero => absurd zero unlimited,
      fun pos => Nat.mod_lt _ pos⟩
    rw [findVOQId, if_neg unlimited, static, if_neg Bool.false_ne_true]

/-! ### GetVOQ -/

theorem lastFree_spec (ids : List ℕ) (start : Option ℕ) :
    match ids.foldl (fun found i => if (G.voqs i).isNone then some i else found) start with
    | some v => start = some v ∨ (v ∈ ids ∧ G.voqs v = none)
    | none => start = none ∧ ∀ i ∈ ids, (G.voqs i).isSome = true := by
  induction ids generalizing start with
  | nil => cases start <;> simp
  | cons j rest ih =>
    have later := ih (if (G.voqs j).isNone then some j else start)
    rw [List.foldl_cons]
    split
    · rename_i v same
      rw [same] at later
      rcases later with here | ⟨member, free⟩
      · split at here
        · rename_i free
          obtain rfl := Option.some.inj here
          exact .inr ⟨List.mem_cons_self, Option.isNone_iff_eq_none.mp free⟩
        · exact .inl here
      · exact .inr ⟨List.mem_cons_of_mem j member, free⟩
    · rename_i same
      rw [same] at later
      obtain ⟨here, full⟩ := later
      split at here
      · cases here
      · rename_i taken
        refine ⟨here, fun i member => ?_⟩
        rcases List.mem_cons.mp member with rfl | member
        · cases held : G.voqs i with
          | none => exact absurd (held ▸ rfl) taken
          | some l => rfl
        · exact full i member

theorem lastFree_some (space : G.voqCount c < c.voqLimit) :
    ∃ v, G.lastFree c = some v ∧ v < c.voqLimit ∧ G.voqs v = none := by
  have found := lastFree_spec (G := G) (List.range c.voqLimit) none
  unfold lastFree
  split at found
  · rename_i v same
    rcases found with nothing | ⟨member, free⟩
    · cases nothing
    · exact ⟨v, same, List.mem_range.mp member, free⟩
  · have full : G.voqCount c = (List.range c.voqLimit).length := List.countP_eq_length.mpr found.2
    rw [List.length_range] at full
    omega

/-- What `GetVOQ` returns for a destination: its VOQ, or one of a destination that has none yet. -/
structure Got (c : VoqConfig) (G G' : Group) (dst voqId : ℕ) : Prop where
  pkts : ∀ v, G'.pkts v = G.pkts v
  voqs : ∀ v, v ≠ voqId → G'.voqs v = G.voqs v
  found : G'.findVOQId c dst = some voqId
  others : ∀ d, d ≠ dst → G'.findVOQId c d = G.findVOQId c d
  mapping : c.dynamicHash = true → G'.dst2voq = Function.update G.dst2voq dst (some voqId)
  kept : ∀ v, G.findVOQId c dst = some v → v = voqId
  unlimited : c.voqLimit = 0 → voqId = dst
  below : 0 < c.voqLimit → voqId < c.voqLimit

theorem pkts_create (c : VoqConfig) (G : Group) (dst voqId v : ℕ) :
    (G.create c dst voqId).pkts v = G.pkts v := by
  unfold create pkts
  dsimp only
  split
  · rename_i absent
    rw [Function.update_apply]
    split
    · rename_i here
      rw [here, Option.isNone_iff_eq_none.mp absent]
      rfl
    · rfl
  · rfl

theorem voqs_create (c : VoqConfig) (G : Group) (dst : ℕ) {voqId v : ℕ} (other : v ≠ voqId) :
    (G.create c dst voqId).voqs v = G.voqs v := by
  unfold create
  dsimp only
  split
  · exact Function.update_of_ne other _ _
  · rfl

theorem got_create (dynamic : c.dynamicHash = true) (unmapped : G.dst2voq dst = none)
    (below : voqId < c.voqLimit) : Got c G (G.create c dst voqId) dst voqId where
  pkts := pkts_create c G dst voqId
  voqs _ other := voqs_create c G dst other
  found := by
    rw [findVOQId_dynamic dynamic, create, if_pos dynamic]
    exact Function.update_self _ _ _
  others d other := by
    rw [findVOQId_dynamic dynamic, findVOQId_dynamic dynamic, create, if_pos dynamic]
    exact Function.update_of_ne other _ _
  mapping _ := by rw [create, if_pos dynamic]
  kept v mapped := by
    rw [findVOQId_dynamic dynamic, unmapped] at mapped
    cases mapped
  unlimited zero := by omega
  below _ := below

theorem got_same (found : G.findVOQId c dst = some voqId)
    (mapped : c.dynamicHash = true → G.dst2voq dst = some voqId ∧ voqId < c.voqLimit)
    (fixed : c.dynamicHash = false → (c.voqLimit = 0 → voqId = dst) ∧
      (0 < c.voqLimit → voqId < c.voqLimit)) :
    Got c G G dst voqId where
  pkts _ := rfl
  voqs _ _ := rfl
  found := found
  others _ _ := rfl
  mapping dynamic := by rw [← (mapped dynamic).1, Function.update_eq_self]
  kept _ same := Option.some.inj (same.symm.trans found)
  unlimited zero := by
    cases hashing : c.dynamicHash with
    | false => exact (fixed hashing).1 zero
    | true =>
      have limited := c.limited hashing
      omega
  below pos := by
    cases hashing : c.dynamicHash with
    | false => exact (fixed hashing).2 pos
    | true => exact (mapped hashing).2

theorem getVOQId_found (found : G.findVOQId c dst = some voqId) :
    G.getVOQId c dst = .ok (some voqId, true) := by
  rw [getVOQId, found]

theorem getVOQ_of_id {found : Bool} (given : G.getVOQId c dst = .ok (some voqId, found)) :
    G.getVOQ c dst = G.useVOQ c dst voqId found := by
  unfold getVOQ
  rw [given]
  rfl

theorem getVOQ_static (static : c.dynamicHash = false) :
    ∃ G' voqId, G.getVOQ c dst = .ok (G', voqId) ∧ Got c G G' dst voqId := by
  obtain ⟨v, found, fixed⟩ := findVOQId_static dst static
  have impossible : ∀ {P : Prop}, c.dynamicHash = true → P :=
    fun dynamic => absurd dynamic (by simp [static])
  rw [getVOQ_of_id (getVOQId_found (found G)), useVOQ]
  simp only [static, Bool.not_false, Bool.true_and, Bool.false_and, Bool.or_false,
    Bool.false_eq_true, if_false]
  split
  · refine ⟨_, v, rfl, ?_⟩
    exact {
      pkts := pkts_create c G dst v
      voqs := fun _ other => voqs_create c G dst other
      found := found _
      others := fun d _ => by
        obtain ⟨w, same, -⟩ := findVOQId_static d static
        rw [same, same]
      mapping := impossible
      kept := fun w mapped => Option.some.inj (mapped.symm.trans (found G))
      unlimited := fixed.1
      below := fixed.2 }
  · exact ⟨_, v, rfl, got_same (found G) impossible fun _ => fixed⟩

theorem getVOQ_dynamic (valid : G.Valid c) (dynamic : c.dynamicHash = true) :
    ∃ G' voqId, G.getVOQ c dst = .ok (G', voqId) ∧ Got c G G' dst voqId := by
  have limited := c.limited dynamic
  cases mapped : G.dst2voq dst with
  | some v =>
    have found : G.findVOQId c dst = some v := (findVOQId_dynamic dynamic).trans mapped
    obtain ⟨below, p, member, -⟩ := valid.mapped dynamic dst v mapped
    have present := pkts_isSome (List.ne_nil_of_mem member)
    refine ⟨G, v, ?_, got_same found (fun _ => ⟨mapped, below⟩) fun static =>
      absurd dynamic (by simp [static])⟩
    rw [getVOQ_of_id (getVOQId_found found), useVOQ, if_neg (by simp [dynamic]),
      if_neg fun absent => absurd (Option.isNone_iff_eq_none.mp absent)
        (Option.isSome_iff_ne_none.mp present)]
  | none =>
    have missing : G.findVOQId c dst = none := (findVOQId_dynamic dynamic).trans mapped
    have fresh : ∃ v, G.getVOQId c dst = .ok (some v, false) ∧ v < c.voqLimit := by
      unfold getVOQId
      rw [missing]
      simp only [dynamic, if_true]
      split
      · rename_i space
        obtain ⟨v, free, below, -⟩ := lastFree_some space
        exact ⟨v, by rw [free], below⟩
      · exact ⟨_, rfl, Nat.mod_lt _ limited⟩
    obtain ⟨v, given, below⟩ := fresh
    refine ⟨_, v, ?_, got_create dynamic mapped below⟩
    rw [getVOQ_of_id given, useVOQ, if_pos (by simp [dynamic]), if_neg (by simp [mapped])]

theorem getVOQ_valid (valid : G.Valid c) (dst : ℕ) :
    ∃ G' voqId, G.getVOQ c dst = .ok (G', voqId) ∧ Got c G G' dst voqId := by
  cases hashing : c.dynamicHash with
  | false => exact getVOQ_static hashing
  | true => exact getVOQ_dynamic valid hashing

/-! ### Changes -/

theorem valid_hold (valid : G.Valid c) {p : PacketUnit} (got : Got c G G' p.dst voqId) :
    (G'.setPkts voqId (G'.pkts voqId ++ [p])).Valid c where
  located v q member := by
    rw [findVOQId_setPkts]
    have old : q ∈ G.pkts v → G'.findVOQId c q.dst = some v := by
      intro waits
      have place := valid.located v q waits
      by_cases same : q.dst = p.dst
      · rw [same] at place ⊢
        rw [got.found, got.kept v place]
      · rw [got.others _ same, place]
    by_cases here : v = voqId
    · subst here
      rw [pkts_setPkts, List.mem_append, got.pkts] at member
      rcases member with waits | new
      · exact old waits
      · rw [List.mem_singleton.mp new]
        exact got.found
    · rw [pkts_setPkts_of_ne _ here, got.pkts] at member
      exact old member
  occupied dynamic v empty := by
    by_cases here : v = voqId
    · subst here
      simp [setPkts] at empty
    · have same : (G'.setPkts voqId (G'.pkts voqId ++ [p])).voqs v = G.voqs v :=
        (Function.update_of_ne here _ _).trans (got.voqs v here)
      exact valid.occupied dynamic v (same ▸ empty)
  mapped dynamic d v same := by
    have table : (G'.setPkts voqId (G'.pkts voqId ++ [p])).dst2voq =
        Function.update G.dst2voq p.dst (some voqId) :=
      got.mapping dynamic
    rw [table, Function.update_apply] at same
    split at same
    · rename_i here
      obtain rfl := Option.some.inj same
      refine ⟨got.below (c.limited dynamic), p, ?_, here.symm⟩
      rw [pkts_setPkts]
      exact List.mem_append_right _ List.mem_cons_self
    · obtain ⟨below, q, waits, is⟩ := valid.mapped dynamic d v same
      refine ⟨below, q, ?_, is⟩
      by_cases here : v = voqId
      · subst here
        rw [pkts_setPkts, got.pkts]
        exact List.mem_append_left _ waits
      · rw [pkts_setPkts_of_ne _ here, got.pkts]
        exact waits

theorem pkts_release (c : VoqConfig) (G : Group) (dst voqId left v : ℕ) :
    (G.release c dst voqId left).pkts v = G.pkts v := by
  unfold release
  split
  · unfold pkts
    dsimp only
    split
    · rename_i empty
      rw [Function.update_apply]
      split
      · rename_i here
        rw [here]
        exact (List.isEmpty_iff.mp empty).symm
      · rfl
    · rfl
  · rfl

theorem findVOQId_release (c : VoqConfig) (G : Group) {dst d : ℕ} (voqId left : ℕ)
    (other : d ≠ dst) : (G.release c dst voqId left).findVOQId c d = G.findVOQId c d := by
  unfold release
  split
  · unfold findVOQId
    dsimp only
    rw [Function.update_of_ne other]
  · rfl

theorem findVOQId_of_release {left v : ℕ}
    (found : (G.release c dst voqId left).findVOQId c dst = some v) :
    G.findVOQId c dst = some v := by
  unfold release at found
  split at found
  · rename_i released
    rw [findVOQId_dynamic released.1] at found
    dsimp only at found
    rw [Function.update_self] at found
    cases found
  · exact found

theorem pkts_pop {top q : PacketUnit} {rest : List PacketUnit} {v : ℕ}
    (front : G.pkts voqId = top :: rest) : q ∈ (G.setPkts voqId rest).pkts v → q ∈ G.pkts v := by
  intro member
  by_cases here : v = voqId
  · subst here
    rw [pkts_setPkts] at member
    rw [front]
    exact List.mem_cons_of_mem top member
  · rwa [pkts_setPkts_of_ne _ here] at member

theorem mem_pop {top q : PacketUnit} {rest : List PacketUnit} {v : ℕ}
    (front : G.pkts voqId = top :: rest)
    (member : q ∈ G.pkts v) (other : q ≠ top) : q ∈ (G.setPkts voqId rest).pkts v := by
  by_cases here : v = voqId
  · subst here
    rw [front] at member
    rw [pkts_setPkts]
    exact (List.mem_cons.mp member).resolve_left other
  · rwa [pkts_setPkts_of_ne _ here]

/-- The first packet of a VOQ leaves; `left` tells whether another one of its destination waits. -/
theorem valid_release (valid : G.Valid c) {top : PacketUnit} {rest : List PacketUnit} {left : ℕ}
    (front : G.pkts voqId = top :: rest) (counts : left = 0 ↔ ∀ p ∈ rest, p.dst ≠ top.dst) :
    ((G.setPkts voqId rest).release c top.dst voqId left).Valid c := by
  have place : G.findVOQId c top.dst = some voqId :=
    valid.located voqId top (front ▸ List.mem_cons_self)
  have gone : left = 0 → ∀ v, ∀ q ∈ (G.setPkts voqId rest).pkts v, q.dst ≠ top.dst := by
    intro none v q member same
    have old := valid.located v q (pkts_pop front member)
    rw [same, place] at old
    obtain rfl := Option.some.inj old
    rw [pkts_setPkts] at member
    exact counts.mp none q member same
  have stays : left ≠ 0 → ∃ p ∈ rest, p.dst = top.dst := by
    intro some
    by_contra none
    exact some (counts.mpr fun p member same => none ⟨p, member, same⟩)
  by_cases released : c.dynamicHash = true ∧ left = 0
  · obtain ⟨dynamic, last⟩ := released
    have group : (G.setPkts voqId rest).release c top.dst voqId left =
        { voqs := if rest.isEmpty then Function.update (G.setPkts voqId rest).voqs voqId none
            else (G.setPkts voqId rest).voqs
          dst2voq := Function.update G.dst2voq top.dst none } := by
      rw [release, if_pos ⟨dynamic, last⟩, pkts_setPkts]
      rfl
    refine ⟨fun v q member => ?_, fun _ v empty => ?_, fun _ d v same => ?_⟩
    · rw [pkts_release] at member
      rw [findVOQId_dynamic dynamic, group]
      dsimp only
      rw [Function.update_of_ne (gone last v q member), ← findVOQId_dynamic dynamic]
      exact valid.located v q (pkts_pop front member)
    · have before : v ≠ voqId → (G.setPkts voqId rest).voqs v = G.voqs v :=
        fun other => Function.update_of_ne other _ _
      have here : (G.setPkts voqId rest).voqs voqId = some rest := Function.update_self _ _ _
      rw [group] at empty
      dsimp only at empty
      by_cases same : v = voqId
      · subst same
        split at empty
        · rw [Function.update_self] at empty
          cases empty
        · rename_i filled
          rw [here] at empty
          exact filled (by rw [Option.some.inj empty]; rfl)
      · have old : G.voqs v = some [] := by
          split at empty
          · rw [Function.update_of_ne same, before same] at empty
            exact empty
          · rw [before same] at empty
            exact empty
        exact valid.occupied dynamic v old
    · have table : ((G.setPkts voqId rest).release c top.dst voqId left).dst2voq =
          Function.update G.dst2voq top.dst none := by rw [group]
      rw [table, Function.update_apply] at same
      split at same
      · cases same
      · rename_i other
        obtain ⟨below, q, waits, is⟩ := valid.mapped dynamic d v same
        refine ⟨below, q, ?_, is⟩
        rw [pkts_release]
        exact mem_pop front waits fun same => other (is ▸ same ▸ rfl)
  · have group : (G.setPkts voqId rest).release c top.dst voqId left = G.setPkts voqId rest :=
      if_neg released
    rw [group]
    refine ⟨fun v q member => ?_, fun dynamic v empty => ?_, fun dynamic d v same => ?_⟩
    · exact valid.located v q (pkts_pop front member)
    · by_cases here : v = voqId
      · subst here
        obtain ⟨p, member, -⟩ := stays fun none => released ⟨dynamic, none⟩
        have nothing : rest = [] := by simpa [setPkts] using empty
        rw [nothing] at member
        cases member
      · have same : (G.setPkts voqId rest).voqs v = G.voqs v := Function.update_of_ne here _ _
        exact valid.occupied dynamic v (same ▸ empty)
    · obtain ⟨below, q, waits, is⟩ := valid.mapped dynamic d v same
      refine ⟨below, ?_⟩
      by_cases first : q = top
      · obtain ⟨p, member, also⟩ := stays fun none => released ⟨dynamic, none⟩
        subst first
        have here := (valid.located v q waits).symm.trans place
        obtain rfl := Option.some.inj here
        exact ⟨p, by rw [pkts_setPkts]; exact member, also.trans is⟩
      · exact ⟨q, mem_pop front waits first, is⟩

end Group

end Floodgate

end Pyrrha

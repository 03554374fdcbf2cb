import Pyrrha.Floodgate.Group
import Pyrrha.Floodgate.Loops
import Pyrrha.Lib.Shelves

/-!
The packets that wait in VOQs, and what `m_buffering` says of them: as long as fewer than 2^32 bytes
of each destination wait, it is exact in every run, and every packet is in the VOQ of its
destination.
-/

namespace Pyrrha
open Lib

namespace Floodgate

variable {cfg : Config} {s t : State} {g voqId : ℕ} {p : PacketUnit}

namespace Config

/-- A bound on the ids of VOQs: of destinations, and of VOQs below a limit. -/
def voqBound (cfg : Config) : ℕ :=
  cfg.hostNum + ((List.range cfg.groupNum).map fun g => (cfg.group g).voqLimit).sum

/-- The VOQs there can be, by group and id. -/
def voqKeys (cfg : Config) : Finset (ℕ × ℕ) :=
  Finset.range cfg.groupNum ×ˢ Finset.range cfg.voqBound

theorem voqLimit_le {g : ℕ} (known : g < cfg.groupNum) : (cfg.group g).voqLimit ≤ cfg.voqBound := by
  have member : (cfg.group g).voqLimit ∈ (List.range cfg.groupNum).map fun g =>
      (cfg.group g).voqLimit :=
    List.mem_map_of_mem (List.mem_range.mpr known)
  have below := List.single_le_sum (fun _ _ => Nat.zero_le _) _ member
  unfold voqBound
  omega

end Config

namespace State

def shelf (s : State) (k : ℕ × ℕ) : List PacketUnit := s.pkts k.1 k.2

/-- The bytes of `dst` that wait in VOQs. -/
def waiting (cfg : Config) (s : State) (dst : ℕ) : ℕ :=
  shelfTally cfg.voqKeys PacketUnit.size (fun p => decide (p.dst = dst)) s.shelf

/-- Every packet that waits is in the VOQ of its destination. -/
structure Placed (cfg : Config) (s : State) : Prop where
  valid : ∀ g, (s.groups g).Valid (cfg.group g)
  ruled : ∀ g v, ∀ p ∈ s.pkts g v, cfg.dst2group p.dst = some (.group g)

/-- `m_buffering` is exact. -/
structure Stored (cfg : Config) (s : State) : Prop extends Placed cfg s where
  buffering : ∀ d, s.getBufferDst d = s.waiting cfg d
  room : ∀ d, s.waiting cfg d < 2 ^ 32

end State

/-- A packet that is held back does not bring the bytes of its destination that wait to 2^32. -/
def Event.Fits (cfg : Config) (s : State) : Event → Prop
  | .data p => s.holds cfg p = true → s.getBufferDst p.dst + p.size < 2 ^ 32
  | _ => True

instance (cfg : Config) (s : State) (ev : Event) : Decidable (ev.Fits cfg s) :=
  match ev with
  | .data p =>
      inferInstanceAs (Decidable (s.holds cfg p = true → s.getBufferDst p.dst + p.size < 2 ^ 32))
  | .switchAck .. | .synTimeout _ | .advance _ => isTrue trivial

namespace State

theorem waiting_initial (cfg : Config) (d : ℕ) : (State.initial cfg).waiting cfg d = 0 :=
  shelfTally_zero fun _ _ _ member => (List.not_mem_nil member).elim

theorem stored_initial (cfg : Config) : (State.initial cfg).Stored cfg where
  valid g := Group.valid_empty (cfg.group g)
  ruled _ _ _ member := (List.not_mem_nil member).elim
  buffering d := (waiting_initial cfg d).symm
  room d := (waiting_initial cfg d).symm ▸ Nat.two_pow_pos 32

theorem placed_same (before : s.Placed cfg) (same : SameVoqs s t) : t.Placed cfg := by
  refine ⟨?_, ?_⟩
  · rw [same.groups]
    exact before.valid
  · unfold pkts
    rw [same.groups]
    exact before.ruled

theorem stored_same (before : s.Stored cfg) (same : SameVoqs s t) : t.Stored cfg where
  toPlaced := placed_same before.toPlaced same
  buffering := by
    unfold getBufferDst waiting shelf pkts
    rw [same.groups, same.buffering]
    exact before.buffering
  room := by
    unfold waiting shelf pkts
    rw [same.groups]
    exact before.room

/-! ### What the invariant says of a VOQ -/

theorem voqKeys_of_id {d v : ℕ} (rule : cfg.dst2group d = some (.group g))
    (unlimited : (cfg.group g).voqLimit = 0 → v = d) (limited : 0 < (cfg.group g).voqLimit →
      v < (cfg.group g).voqLimit) :
    (g, v) ∈ cfg.voqKeys := by
  have known := cfg.grouped d g rule
  have host := (cfg.hosts d).mp (by rw [rule]; rfl)
  have limit := cfg.voqLimit_le known
  refine Finset.mem_product.mpr ⟨Finset.mem_range.mpr known, Finset.mem_range.mpr ?_⟩
  show v < cfg.voqBound
  rcases Nat.eq_zero_or_pos (cfg.group g).voqLimit with zero | pos
  · have := unlimited zero
    unfold Config.voqBound
    omega
  · have := limited pos
    omega

theorem Placed.key (h : s.Placed cfg) (member : p ∈ s.pkts g voqId) : (g, voqId) ∈ cfg.voqKeys := by
  have place := (h.valid g).located voqId p member
  refine voqKeys_of_id (h.ruled g voqId p member) (fun zero => ?_) fun pos => ?_
  · rw [Group.findVOQId, if_pos zero] at place
    exact (Option.some.inj place).symm
  · cases hashing : (cfg.group g).dynamicHash with
    | true =>
      rw [Group.findVOQId_dynamic hashing] at place
      exact ((h.valid g).mapped hashing p.dst voqId place).1
    | false =>
      obtain ⟨w, found, -, limited⟩ := Group.findVOQId_static p.dst hashing
      obtain rfl := Option.some.inj ((found _).symm.trans place)
      exact limited pos

theorem Placed.alone (h : s.Placed cfg) (member : p ∈ s.pkts g voqId) {k : ℕ × ℕ}
    (other : k ≠ (g, voqId)) : ∀ q ∈ s.shelf k, decide (q.dst = p.dst) = false := by
  intro q waits
  refine decide_eq_false fun same => other ?_
  have here := h.ruled k.1 k.2 q waits
  have place := (h.valid k.1).located k.2 q waits
  rw [same, h.ruled g voqId p member] at here
  obtain rfl : g = k.1 := by simpa using here
  rw [same, (h.valid k.1).located voqId p member] at place
  obtain rfl := Option.some.inj place
  rfl

theorem Placed.waiting_single (h : s.Placed cfg) (member : p ∈ s.pkts g voqId) :
    s.waiting cfg p.dst = tally PacketUnit.size (fun q => decide (q.dst = p.dst))
      (s.pkts g voqId) :=
  shelfTally_single (h.key member) fun _ other => h.alone member other

/-- While a packet waits, its destination has an entry in `m_buffering`. -/
theorem Stored.entry (h : s.Stored cfg) (member : p ∈ s.pkts g voqId) :
    s.buffering p.dst = some (s.waiting cfg p.dst) ∧ p.size ≤ s.waiting cfg p.dst := by
  have exact := h.buffering p.dst
  have here : p.size ≤ s.waiting cfg p.dst :=
    le_shelfTally (f := s.shelf) (h.key member) member (decide_eq_true rfl)
  have pos := p.size_pos
  refine ⟨?_, here⟩
  unfold getBufferDst at exact
  cases entry : s.buffering p.dst with
  | none =>
    rw [entry] at exact
    change 0 = _ at exact
    omega
  | some b =>
    rw [entry] at exact
    exact congrArg some exact

theorem Stored.waits (h : s.Stored cfg) {d : ℕ} (some : 0 < s.getBufferDst d) :
    ∃ g v, ∃ q ∈ s.pkts g v, q.dst = d := by
  by_contra none
  have empty : s.waiting cfg d = 0 :=
    shelfTally_zero fun k _ q member => decide_eq_false fun same => none ⟨k.1, k.2, q, member, same⟩
  rw [h.buffering] at some
  omega

/-! ### Arrivals -/

theorem Placed.got (h : s.Placed cfg) {G : Group} (held : Held cfg s t g voqId G p) :
    (s.groups g).Got (cfg.group g) G p.dst voqId := by
  obtain ⟨G', v, voq, got⟩ := Group.getVOQ_valid (h.valid g) p.dst
  rw [held.voq] at voq
  obtain ⟨rfl, rfl⟩ := Prod.mk.inj (Except.ok.inj voq)
  exact got

theorem shelf_held {G : Group} (held : Held cfg s t g voqId G p)
    (got : (s.groups g).Got (cfg.group g) G p.dst voqId) :
    t.pkts g voqId = s.pkts g voqId ++ [p] ∧ ∀ k, k ≠ (g, voqId) → t.shelf k = s.shelf k := by
  unfold shelf pkts
  rw [held.groups]
  refine ⟨?_, fun k other => ?_⟩
  · rw [Function.update_self, Group.pkts_setPkts, got.pkts]
  · by_cases here : k.1 = g
    · have apart : k.2 ≠ voqId := fun same => other (Prod.ext here same)
      rw [here, Function.update_self, Group.pkts_setPkts_of_ne _ apart, got.pkts]
    · rw [Function.update_of_ne here]

theorem placed_held {G : Group} (before : s.Placed cfg) (held : Held cfg s t g voqId G p) :
    t.Placed cfg := by
  have got := before.got held
  obtain ⟨joined, others⟩ := shelf_held held got
  refine ⟨fun g' => ?_, fun g' v q waits => ?_⟩
  · rw [held.groups]
    by_cases here : g' = g
    · subst here
      rw [Function.update_self]
      exact Group.valid_hold (before.valid g') got
    · rw [Function.update_of_ne here]
      exact before.valid g'
  · by_cases here : (g', v) = (g, voqId)
    · obtain ⟨rfl, rfl⟩ := Prod.mk.inj here
      rw [joined, List.mem_append] at waits
      rcases waits with old | new
      · exact before.ruled g' v q old
      · rw [List.mem_singleton.mp new]
        exact held.rule
    · have same : t.pkts g' v = s.pkts g' v := others (g', v) here
      exact before.ruled g' v q (same ▸ waits)

theorem waiting_held {G : Group} (before : s.Placed cfg) (held : Held cfg s t g voqId G p) (d : ℕ) :
    t.waiting cfg d = if d = p.dst then s.waiting cfg p.dst + p.size else s.waiting cfg d := by
  have got := before.got held
  obtain ⟨joined, others⟩ := shelf_held held got
  have key := voqKeys_of_id held.rule got.unlimited got.below
  have pushed : t.waiting cfg d = _ :=
    shelfTally_push (f := s.shelf) (g := t.shelf) (w := PacketUnit.size)
      (p := fun q => decide (q.dst = d)) key joined others
  rw [pushed]
  by_cases here : d = p.dst
  · rw [if_pos here, if_pos (decide_eq_true here.symm), here]
    rfl
  · rw [if_neg here, if_neg fun same => here (of_decide_eq_true same).symm]
    rfl

theorem stored_held {G : Group} (before : s.Stored cfg) (held : Held cfg s t g voqId G p)
    (space : s.getBufferDst p.dst + p.size < 2 ^ 32) : t.Stored cfg := by
  have waits := waiting_held before.toPlaced held
  refine ⟨placed_held before.toPlaced held, fun d => ?_, fun d => ?_⟩
  · have entries : t.getBufferDst d = if d = p.dst then countIn (s.buffering p.dst) p.size
        else s.getBufferDst d := by
      unfold getBufferDst
      rw [held.buffering, Function.update_apply]
      split <;> rfl
    rw [entries, waits]
    split
    · have exact := before.buffering p.dst
      have small : p.size < 2 ^ 32 := by omega
      rw [countIn_mod _ small, ← exact]
      exact Nat.mod_eq_of_lt space
    · exact before.buffering d
  · rw [waits]
    split
    · have exact := before.buffering p.dst
      omega
    · exact before.room d

/-! ### Releases -/

/-- A release takes the first packet out of its VOQ; the other VOQs stay. -/
theorem shelf_released (h : Released cfg s t g voqId p) :
    ∃ top, s.pkts g voqId = top :: t.pkts g voqId ∧ top.bare = p.bare ∧ ∀ k, k ≠ (g, voqId) →
    t.shelf k = s.shelf k := by
  obtain ⟨top, rest, front, bare, groups⟩ := h.front
  have taken : t.pkts g voqId = rest := by
    unfold pkts
    rw [groups, Function.update_self, Group.pkts_release, Group.pkts_setPkts]
  refine ⟨top, taken.symm ▸ front, bare, fun k other => ?_⟩
  unfold shelf pkts
  rw [groups]
  by_cases here : k.1 = g
  · have apart : k.2 ≠ voqId := fun same => other (Prod.ext here same)
    rw [here, Function.update_self, Group.pkts_release, Group.pkts_setPkts_of_ne _ apart]
  · rw [Function.update_of_ne here]

theorem waiting_released (before : s.Placed cfg) (h : Released cfg s t g voqId p) (d : ℕ) :
    t.waiting cfg d + (if d = p.dst then p.size else 0) = s.waiting cfg d := by
  obtain ⟨top, front, bare, others⟩ := shelf_released h
  obtain ⟨dst, size, -, -⟩ := PacketUnit.bare_fields bare
  have key := before.key (front ▸ List.mem_cons_self : top ∈ s.pkts g voqId)
  have popped :=
    shelfTally_pop (f := s.shelf) (g := t.shelf) (w := PacketUnit.size)
      (p := fun q => decide (q.dst = d)) key front others
  rw [size, dst] at popped
  simp only [decide_eq_true_eq, eq_comm (a := p.dst)] at popped
  exact popped

theorem buffering_released (before : s.Stored cfg) (h : Released cfg s t g voqId p) (d : ℕ) :
    t.getBufferDst d = t.waiting cfg d := by
  obtain ⟨top, front, bare, -⟩ := shelf_released h
  obtain ⟨dst, size, -, -⟩ := PacketUnit.bare_fields bare
  have waits := waiting_released before.toPlaced h d
  obtain ⟨bytes, known, counted⟩ := h.buffering
  unfold getBufferDst
  rw [counted, Function.update_apply]
  split
  · rename_i same
    subst same
    have member : top ∈ s.pkts g voqId := front ▸ List.mem_cons_self
    obtain ⟨entry, here⟩ := before.entry member
    rw [size, dst] at here
    rw [dst] at entry
    obtain rfl := Option.some.inj (known.symm.trans entry)
    rw [if_pos rfl] at waits
    rw [Option.getD_some, sub32_exact (before.room p.dst) here]
    omega
  · rename_i other
    rw [if_neg other] at waits
    have was := before.buffering d
    unfold getBufferDst at was
    omega

theorem placed_released (before : s.Stored cfg) (h : Released cfg s t g voqId p) :
    t.Placed cfg := by
  obtain ⟨top, rest, front, bare, groups⟩ := h.front
  obtain ⟨dst, size, -, -⟩ := PacketUnit.bare_fields bare
  have member : top ∈ s.pkts g voqId := front ▸ List.mem_cons_self
  have counts : t.getBufferDst p.dst = 0 ↔ ∀ q ∈ rest, q.dst ≠ top.dst := by
    have waits := waiting_released before.toPlaced h p.dst
    have single := before.waiting_single member
    rw [front, tally_cons, if_pos (decide_eq_true rfl), dst, size] at single
    rw [if_pos rfl] at waits
    rw [buffering_released before h, dst]
    constructor
    · intro zero q still same
      have weighs := le_tally (w := PacketUnit.size) (p := fun q => decide (q.dst = p.dst)) still
        (decide_eq_true same)
      have pos := q.size_pos
      omega
    · intro none
      have nothing : tally PacketUnit.size (fun q => decide (q.dst = p.dst)) rest = 0 :=
        tally_zero fun q still => decide_eq_false (none q still)
      omega
  refine ⟨fun g' => ?_, fun g' v q waits => ?_⟩
  · rw [groups]
    by_cases here : g' = g
    · subst here
      rw [Function.update_self, ← dst]
      rw [← dst] at counts
      exact Group.valid_release (before.valid g') front counts
    · rw [Function.update_of_ne here]
      exact before.valid g'
  · refine before.ruled g' v q ?_
    obtain ⟨first, taken, -, others⟩ := shelf_released h
    by_cases here : (g', v) = (g, voqId)
    · obtain ⟨rfl, rfl⟩ := Prod.mk.inj here
      rw [taken]
      exact List.mem_cons_of_mem first waits
    · have same : t.pkts g' v = s.pkts g' v := others (g', v) here
      exact same ▸ waits

theorem stored_released (before : s.Stored cfg) (h : Released cfg s t g voqId p) :
    t.Stored cfg := by
  refine ⟨placed_released before h, buffering_released before h, fun d => ?_⟩
  have waits := waiting_released before.toPlaced h d
  have room := before.room d
  omega

/-! ### Runs -/

/-- Where the counters are exact a release runs into asserts of windows only. -/
theorem release_asserts (h : s.Stored cfg) {e : Assert} (failed : e.OfRelease cfg s g voqId) :
    e.OfWindow := by
  rcases failed with window | ⟨top, rest, front, ⟨lost, -⟩ | ⟨unknown, -⟩⟩
  · exact window
  · have member : top ∈ s.pkts g voqId := front ▸ List.mem_cons_self
    exact absurd ((h.valid g).located voqId top member) lost
  · have member : top ∈ s.pkts g voqId := front ▸ List.mem_cons_self
    have known := (h.entry member).1
    rw [unknown] at known
    cases known

theorem arrival_asserts (h : s.Placed cfg) {e : Assert} (failed : e.OfArrival cfg s p) :
    e.OfWindow := by
  rcases failed with window | ⟨g, rule, lost⟩
  · exact window
  · obtain ⟨G', v, voq, -⟩ := Group.getVOQ_valid (h.valid g) p.dst
    rw [lost] at voq
    cases voq

theorem Placed.none_waits (h : s.Placed cfg) {d : ℕ} (rule : cfg.dst2group d = some (.group g))
    (missing : (s.groups g).findVOQ (cfg.group g) d = none) : s.waiting cfg d = 0 := by
  refine shelfTally_zero fun k shelf q waits => decide_eq_false fun same => ?_
  have here := h.ruled k.1 k.2 q waits
  rw [same, rule] at here
  obtain rfl : g = k.1 := by simpa using here
  have place := (h.valid k.1).located k.2 q waits
  have present := Group.pkts_isSome (List.ne_nil_of_mem waits)
  rw [same] at place
  rw [Group.findVOQ, place, Option.filter, present] at missing
  cases missing

theorem stored_rule (cfg : Config) : ReleaseRule cfg (fun s => s.Stored cfg) Assert.OfWindow where
  one s g voqId before := by
    refine outcome_mono (checkAndSendOne_outcome cfg s g voqId) (fun r after => ?_) fun e =>
      release_asserts before
    split at after
    · obtain ⟨p, released⟩ := after
      exact stored_released before released
    · exact stored_same before after.only.rewindowed.sameVoqs
  cached s dev top rest before _ _ := stored_same before (sentCached cfg s dev top rest).voqs
  known := .inl rfl
  found s d g before rule missing :=
    .inl ((before.buffering d).trans (before.none_waits rule missing))

theorem stored_step {ev : Event} (before : s.Stored cfg) (fit : ev.Fits cfg s) :
    Outcome (fun t => t.Stored cfg) Assert.OfWindow (s.step cfg ev) := by
  refine (stored_rule cfg).step (fun _ window => window)
    (fun _ _ h credit => stored_same h credit.voqs) ?_ before
  rintro p rfl
  refine outcome_mono (sendToDev_outcome cfg s p) (fun t arrived => ?_) fun e =>
    arrival_asserts before.toPlaced
  have start : ({ s with admitted := s.admitted ++ [p] }).Stored cfg :=
    stored_same before ⟨rfl, rfl, rfl⟩
  rcases arrived with ignored | ⟨p', passed⟩ | ⟨g, voqId, G, held⟩
  · rw [ignored.eq]
    exact stored_same start ⟨rfl, rfl, rfl⟩
  · exact stored_same start passed.voqs
  · have blocked := held.blocked
    rw [holds_admitted] at blocked
    exact stored_held start held (fit blocked)

end State

end Floodgate

end Pyrrha

import Pyrrha.Floodgate.Order

/-!
The three ledgers of what waits in VOQs: `m_buffering`, `VOQ::VOQBuffer` and the VOQs themselves,
and the assert of `DoStatistics` that compares the first two. What `DoStatistics` asserts of the
egress is in `Pyrrha.Buffer`.
-/

namespace Pyrrha
open Lib

namespace Floodgate

variable {cfg : Config} {s t : State} {g voqId : ℕ} {p : PacketUnit}

namespace State

def voqBytes (s : State) (g voqId : ℕ) : ℕ := tally PacketUnit.size (fun _ => true) (s.pkts g voqId)

/-- `VOQ::GetTotalBytes` of the switch. -/
def getTotalBytes (cfg : Config) (s : State) : ℕ :=
  ((List.range cfg.groupNum).flatMap fun g => (List.range cfg.voqBound).map
    (s.voqBuffer g)).foldl add32 0

/-- The sum `DoStatistics` takes over `m_buffering`. -/
def getAllBuffering (cfg : Config) (s : State) : ℕ :=
  ((List.range cfg.hostNum).map s.getBufferDst).foldl add32 0

/-- The first assert of `DoStatistics`. -/
def doStatistics (cfg : Config) (s : State) : Checked Unit :=
  if s.getAllBuffering cfg = s.getTotalBytes cfg then .ok () else .error .doStatistics

/-- A packet that is held back does not bring its VOQ to 2^32 bytes. -/
def voqFits (cfg : Config) (s : State) (p : PacketUnit) : Bool :=
  match cfg.dst2group p.dst with
  | some (.group g) =>
    match (s.groups g).getVOQ (cfg.group g) p.dst with
    | .ok (_, voqId) => !s.holds cfg p || decide (s.voqBytes g voqId + p.size < 2 ^ 32)
    | .error _ => true
  | _ => true

/-- What the ledgers say is so, and nothing is lost. -/
structure VoqsExact (cfg : Config) (s : State) : Prop where
  located : ∀ g v, ∀ p ∈ s.pkts g v,
    cfg.dst2group p.dst = some (.group g) ∧ (s.groups g).findVOQId (cfg.group g) p.dst = some v
  buffering : ∀ d, s.getBufferDst d = s.waiting cfg d
  voqBuffer : ∀ g v, s.voqBuffer g v = s.voqBytes g v
  total : ∑ k ∈ cfg.voqKeys, s.voqBuffer k.1 k.2 = ∑ d ∈ Finset.range cfg.hostNum, s.getBufferDst d
  mapped : ∀ g d v, (cfg.group g).dynamicHash = true → (s.groups g).dst2voq d = some v →
    0 < s.getBufferDst d
  kept : ∀ r : Route, r.of s.sent ++ (r.of (s.egressCache r.outDev) ++ r.of (s.voqOf cfg r.dst)) =
    r.of s.admitted
  statistics : s.doStatistics cfg = .ok ()

/-- Destinations whose packets wait before and after a step keep their VOQ. -/
def SameMapping (cfg : Config) (s t : State) : Prop :=
  ∀ g d, (cfg.group g).dynamicHash = true → cfg.dst2group d = some (.group g) →
    0 < s.getBufferDst d → 0 < t.getBufferDst d → (t.groups g).dst2voq d = (s.groups g).dst2voq d

end State

/-- The condition of `voqFits`, for an event. -/
def Event.VoqFits (cfg : Config) (s : State) : Event → Prop
  | .data p => s.voqFits cfg p = true
  | _ => True

instance (cfg : Config) (s : State) (ev : Event) : Decidable (ev.VoqFits cfg s) :=
  match ev with
  | .data p => inferInstanceAs (Decidable (s.voqFits cfg p = true))
  | .switchAck .. | .synTimeout _ | .advance _ => isTrue trivial

namespace State

/-! ### The bytes of a VOQ -/

theorem foldl_add32 (l : List ℕ) {a : ℕ} (small : a < 2 ^ 32) :
    l.foldl add32 a = (a + l.sum) % 2 ^ 32 := by
  induction l generalizing a with
  | nil => rw [List.foldl_nil, List.sum_nil, Nat.add_zero, Nat.mod_eq_of_lt small]
  | cons b rest ih =>
    have next : add32 a b < 2 ^ 32 := Nat.mod_lt _ (Nat.two_pow_pos 32)
    rw [List.foldl_cons, ih next, List.sum_cons, add32, Nat.mod_add_mod, Nat.add_assoc]

/-- `VOQBuffer` is exact, as no VOQ holds 2^32 bytes. -/
structure Counted (cfg : Config) (s : State) : Prop where
  ordered : s.Ordered cfg
  stored : s.Stored cfg
  voqBuffer : ∀ g v, s.voqBuffer g v = s.voqBytes g v
  space : ∀ g v, s.voqBytes g v < 2 ^ 32

theorem voqBytes_held {G : Group} (before : s.Placed cfg) (held : Held cfg s t g voqId G p)
    (g' v : ℕ) : t.voqBytes g' v = if g' = g ∧ v = voqId then s.voqBytes g voqId + p.size
      else s.voqBytes g' v := by
  obtain ⟨joined, others⟩ := shelf_held held (before.got held)
  unfold voqBytes
  split
  · rename_i here
    obtain ⟨rfl, rfl⟩ := here
    rw [joined, tally_concat, if_pos rfl]
  · rename_i other
    have same : t.pkts g' v = s.pkts g' v := others (g', v) fun key => other (Prod.mk.inj key)
    rw [same]

theorem voqBytes_released (h : Released cfg s t g voqId p) (g' v : ℕ) :
    t.voqBytes g' v + (if g' = g ∧ v = voqId then p.size else 0) = s.voqBytes g' v := by
  obtain ⟨top, front, bare, others⟩ := shelf_released h
  obtain ⟨-, size, -, -⟩ := PacketUnit.bare_fields bare
  unfold voqBytes
  split
  · rename_i here
    obtain ⟨rfl, rfl⟩ := here
    rw [front, tally_cons, if_pos rfl, size]
    omega
  · rename_i other
    have same : t.pkts g' v = s.pkts g' v := others (g', v) fun key => other (Prod.mk.inj key)
    rw [same, Nat.add_zero]

theorem waiting_le_voqBytes {d v : ℕ} (placed : s.Placed cfg)
    (rule : cfg.dst2group d = some (.group g))
    (kept : ∀ w, (s.groups g).findVOQId (cfg.group g) d = some w → w = v) :
    s.waiting cfg d ≤ s.voqBytes g v := by
  by_cases some : ∃ k ∈ cfg.voqKeys, ∃ q ∈ s.shelf k, q.dst = d
  · obtain ⟨⟨g', v'⟩, -, q, member, rfl⟩ := some
    have waits : q ∈ s.pkts g' v' := member
    obtain rfl : g = g' := by simpa [rule] using placed.ruled g' v' q waits
    obtain rfl := kept v' ((placed.valid g).located v' q waits)
    rw [placed.waiting_single waits]
    exact tally_mono fun _ _ _ => rfl
  · have none : s.waiting cfg d = 0 :=
      shelfTally_zero fun k key q member => decide_eq_false fun same =>
        some ⟨k, key, q, member, same⟩
    omega

theorem voqFits_room {G : Group} {v : ℕ} (rule : cfg.dst2group p.dst = some (.group g))
    (voq : (s.groups g).getVOQ (cfg.group g) p.dst = .ok (G, v)) (blocked : s.holds cfg p = true)
    (fit : s.voqFits cfg p = true) : s.voqBytes g v + p.size < 2 ^ 32 := by
  unfold voqFits at fit
  rw [rule] at fit
  dsimp only at fit
  rw [voq] at fit
  dsimp only at fit
  rw [blocked, Bool.not_true, Bool.false_or] at fit
  exact of_decide_eq_true fit

theorem fits_of_voqFits {ev : Event} (stored : s.Stored cfg) (fit : ev.VoqFits cfg s) :
    ev.Fits cfg s := by
  cases ev with
  | data p =>
    intro blocked
    rw [stored.buffering]
    have idle : (∀ g, cfg.dst2group p.dst ≠ some (.group g)) →
        s.waiting cfg p.dst + p.size < 2 ^ 32 := by
      intro ungrouped
      have none : s.waiting cfg p.dst = 0 := by
        refine shelfTally_zero fun k _ q member => decide_eq_false fun same => ?_
        exact ungrouped k.1 (same ▸ stored.ruled k.1 k.2 q member)
      have small := p.size_lt
      omega
    cases rule : cfg.dst2group p.dst with
    | none => exact idle fun g => by simp [rule]
    | some dstRule =>
      cases dstRule with
      | ignore => exact idle fun g => by simp [rule]
      | group g =>
        obtain ⟨G, v, voq, got⟩ := Group.getVOQ_valid (stored.valid g) p.dst
        have room := voqFits_room rule voq blocked fit
        have below := waiting_le_voqBytes stored.toPlaced rule got.kept
        omega
  | switchAck acktag dst inDev => trivial
  | advance time => trivial
  | synTimeout dev => trivial

/-! ### Runs -/

theorem counted_same (before : s.Counted cfg) (ordered : t.Ordered cfg) (same : SameVoqs s t) :
    t.Counted cfg := by
  have bytes : ∀ g v, t.voqBytes g v = s.voqBytes g v := by
    intro g v
    unfold voqBytes pkts
    rw [same.groups]
  refine ⟨ordered, stored_same before.stored same, fun g v => ?_, fun g v => ?_⟩
  · rw [same.voqBuffer, bytes]
    exact before.voqBuffer g v
  · rw [bytes]
    exact before.space g v

theorem counted_released (before : s.Counted cfg) (h : Released cfg s t g voqId p) :
    t.Counted cfg := by
  have bytes := voqBytes_released h
  refine ⟨ordered_released before.ordered before.stored h, stored_released before.stored h,
    fun g' v => ?_, fun g' v => ?_⟩
  · have was := before.voqBuffer g' v
    have taken := bytes g' v
    have space := before.space g' v
    rw [h.voqBuffer, update₂_apply]
    split
    · rename_i here
      rw [if_pos here] at taken
      obtain ⟨rfl, rfl⟩ := here
      rw [was, sub32_exact space (by omega)]
      omega
    · rename_i other
      rw [if_neg other] at taken
      omega
  · have taken := bytes g' v
    have space := before.space g' v
    omega

theorem counted_arrival (before : s.Counted cfg) (fit : s.voqFits cfg p = true)
    (h : Arrived cfg { s with admitted := s.admitted ++ [p] } t p) : t.Counted cfg := by
  have ordered := ordered_arrival before.ordered before.stored h
  rcases h with ignored | ⟨p', passed⟩ | ⟨g, voqId, G, held⟩
  · rw [ignored.eq] at ordered ⊢
    exact counted_same before ordered ⟨rfl, rfl, rfl⟩
  · exact counted_same before ordered ⟨passed.voqs.groups, passed.voqs.voqBuffer,
      passed.voqs.buffering⟩
  · have start : ({ s with admitted := s.admitted ++ [p] } : State).Stored cfg :=
      stored_same before.stored ⟨rfl, rfl, rfl⟩
    have blocked := held.blocked
    rw [holds_admitted] at blocked
    have voq : (s.groups g).getVOQ (cfg.group g) p.dst = .ok (G, voqId) := held.voq
    have room := voqFits_room held.rule voq blocked fit
    have wait : (Event.data p).Fits cfg s := fits_of_voqFits before.stored fit
    have bytes : ∀ g' v, t.voqBytes g' v = if g' = g ∧ v = voqId then s.voqBytes g voqId + p.size
        else s.voqBytes g' v := by
      have joined := voqBytes_held start.toPlaced held
      exact joined
    refine ⟨ordered, stored_held start held (wait blocked), fun g' v => ?_, fun g' v => ?_⟩
    · rw [held.voqBuffer, bytes, update₂_apply]
      split
      · rw [← add32_exact room, ← before.voqBuffer]
      · exact before.voqBuffer g' v
    · rw [bytes]
      split
      · exact room
      · exact before.space g' v

theorem counted_rule (cfg : Config) : ReleaseRule cfg (fun s => s.Counted cfg) Assert.OfWindow where
  one s g voqId before := by
    refine outcome_mono (checkAndSendOne_outcome cfg s g voqId) (fun r after => ?_) fun e =>
      release_asserts before.stored
    split at after
    · obtain ⟨p, released⟩ := after
      exact counted_released before released
    · have same := after.only.rewindowed
      exact counted_same before (ordered_same before.ordered same.credited) same.sameVoqs
  cached s dev top rest before front _ := by
    have sent := sentCached cfg s dev top rest
    exact counted_same before (ordered_sent before.ordered front sent) sent.voqs
  known := .inl rfl
  found s d g before rule missing :=
    .inl ((before.stored.buffering d).trans (before.stored.none_waits rule missing))

theorem counted_step {ev : Event} (before : s.Counted cfg) (fit : ev.VoqFits cfg s) :
    Outcome (fun t => t.Counted cfg) Assert.OfWindow (s.step cfg ev) := by
  refine (counted_rule cfg).step (fun _ window => window) ?_ ?_ before
  · exact fun s t at_s credit => counted_same at_s (ordered_same at_s.ordered credit) credit.voqs
  · rintro p rfl
    exact outcome_mono (sendToDev_outcome cfg s p) (fun t => counted_arrival before fit) fun e =>
      arrival_asserts before.stored.toPlaced

theorem counted_reachable (reach : s.Reachable cfg (Event.VoqFits cfg)) : s.Counted cfg := by
  induction reach with
  | initial =>
    exact ⟨ordered_initial cfg, stored_initial cfg, fun _ _ => rfl, fun _ _ => Nat.two_pow_pos 32⟩
  | step _ fit call before => exact outcome_result (counted_step before fit) call

/-! ### The mapping of destinations to VOQs -/

theorem mapping_released (h : Released cfg s t g voqId p) {g' d : ℕ}
    (waits : 0 < t.getBufferDst d) : (t.groups g').dst2voq d = (s.groups g').dst2voq d := by
  obtain ⟨-, rest, -, -, groups⟩ := h.front
  rw [groups, Function.update_apply]
  split
  · rename_i here
    subst here
    unfold Group.release
    split
    · rename_i released
      have other : d ≠ p.dst := by
        rintro rfl
        omega
      exact Function.update_of_ne other _ _
    · rfl
  · rfl

theorem waits_released (stored : s.Stored cfg) (h : Released cfg s t g voqId p) {d : ℕ}
    (waits : 0 < t.getBufferDst d) : 0 < s.getBufferDst d := by
  have taken := waiting_released stored.toPlaced h d
  rw [buffering_released stored h] at waits
  rw [stored.buffering]
  omega

theorem mapping_rule (cfg : Config) (s : State) :
    ReleaseRule cfg (fun t => t.Stored cfg ∧ ∀ g d, 0 < t.getBufferDst d →
      0 < s.getBufferDst d ∧ (t.groups g).dst2voq d = (s.groups g).dst2voq d) fun _ => True where
  one u g voqId before := by
    obtain ⟨stored, mapping⟩ := before
    refine outcome_mono (checkAndSendOne_outcome cfg u g voqId) (fun r after => ?_) fun _ _ =>
      trivial
    split at after
    · obtain ⟨p, released⟩ := after
      refine ⟨stored_released stored released, fun g' d waits => ?_⟩
      obtain ⟨waited, same⟩ := mapping g' d (waits_released stored released waits)
      exact ⟨waited, (mapping_released released waits).trans same⟩
    · have same := after.only.rewindowed.sameVoqs
      refine ⟨stored_same stored same, fun g' d waits => ?_⟩
      unfold getBufferDst at waits
      rw [same.buffering] at waits
      rw [same.groups]
      exact mapping g' d waits
  cached u dev top rest before _ _ := by
    have same := (sentCached cfg u dev top rest).voqs
    refine ⟨stored_same before.1 same, fun g' d waits => ?_⟩
    unfold getBufferDst at waits
    rw [same.buffering] at waits
    rw [same.groups]
    exact before.2 g' d waits
  known := trivial
  found _ _ _ _ _ _ := .inr trivial

theorem sameMapping_held {G : Group} (stored : s.Stored cfg) (held : Held cfg s t g voqId G p) :
    SameMapping cfg s t := by
  have got := stored.got held
  intro g' d dynamic rule waited _
  rw [held.groups, Function.update_apply]
  split
  · rename_i here
    subst here
    show G.dst2voq d = _
    rw [got.mapping dynamic, Function.update_apply]
    split
    · rename_i same
      subst same
      obtain ⟨g, v, q, member, here⟩ := stored.waits waited
      obtain rfl : g' = g := by simpa [← here, stored.ruled g v q member] using rule.symm
      have found := (stored.valid g').located v q member
      rw [here] at found
      rw [← got.kept v found, ← Group.findVOQId_dynamic dynamic, found]
    · rfl
  · rfl

theorem sameMapping_release (ev : Event) (stored : s.Stored cfg) (noData : ∀ p, ev ≠ .data p)
    (call : s.step cfg ev = .ok t) : SameMapping cfg s t := by
  have kept : Outcome (fun t => t.Stored cfg ∧ ∀ g d, 0 < t.getBufferDst d →
      0 < s.getBufferDst d ∧ (t.groups g).dst2voq d =
        (s.groups g).dst2voq d) (fun _ => True) (s.step cfg ev) := by
    refine (mapping_rule cfg s).step (fun _ _ => trivial) ?_ (fun p is => absurd is (noData p))
      ⟨stored, fun g d waits => ⟨waits, rfl⟩⟩
    intro u v before credit
    refine ⟨stored_same before.1 credit.voqs, fun g d waits => ?_⟩
    unfold getBufferDst at waits
    rw [credit.voqs.buffering] at waits
    rw [credit.voqs.groups]
    exact before.2 g d waits
  have after := outcome_result kept call
  exact fun g d _ _ _ waits => (after.2 g d waits).2

theorem sameMapping_step {ev : Event} (stored : s.Stored cfg) (call : s.step cfg ev = .ok t) :
    SameMapping cfg s t := by
  cases ev with
  | data p =>
    have arrived := outcome_result (sendToDev_outcome cfg s p) call
    rcases arrived with ignored | ⟨p', passed⟩ | ⟨g', voqId, G, held⟩
    · rw [ignored.eq]
      exact fun _ _ _ _ _ _ => rfl
    · unfold SameMapping
      rw [passed.voqs.groups]
      exact fun _ _ _ _ _ _ => rfl
    · have start : ({ s with admitted := s.admitted ++ [p] } : State).Stored cfg :=
        stored_same stored ⟨rfl, rfl, rfl⟩
      have same := sameMapping_held start held
      exact same
  | switchAck acktag dst inDev =>
      exact sameMapping_release (.switchAck acktag dst inDev) stored nofun call
  | advance time => exact sameMapping_release (.advance time) stored nofun call
  | synTimeout dev => exact sameMapping_release (.synTimeout dev) stored nofun call

/-! ### The ledgers -/

theorem getTotalBytes_eq (cfg : Config) (s : State) :
    s.getTotalBytes cfg = (∑ k ∈ cfg.voqKeys, s.voqBuffer k.1 k.2) % 2 ^ 32 := by
  have rows : ∀ g, ((List.range cfg.voqBound).map (s.voqBuffer g)).sum = ∑ v ∈
      Finset.range cfg.voqBound, s.voqBuffer g v :=
    fun g => rfl
  unfold getTotalBytes Config.voqKeys
  rw [foldl_add32 _ (Nat.two_pow_pos 32), Nat.zero_add, Finset.sum_product, List.flatMap_def,
    List.sum_flatten, List.map_map]
  rfl

theorem getAllBuffering_eq (cfg : Config) (s : State) :
    s.getAllBuffering cfg = (∑ d ∈ Finset.range cfg.hostNum, s.getBufferDst d) % 2 ^ 32 := by
  unfold getAllBuffering
  rw [foldl_add32 _ (Nat.two_pow_pos 32), Nat.zero_add]
  rfl

theorem sum_buffering (h : s.Counted cfg) :
    ∑ k ∈ cfg.voqKeys, s.voqBuffer k.1 k.2 = ∑ d ∈ Finset.range cfg.hostNum, s.getBufferDst d := by
  have bytes : ∑ k ∈ cfg.voqKeys, s.voqBuffer k.1 k.2 =
      shelfTally cfg.voqKeys PacketUnit.size (fun _ => true) s.shelf :=
    Finset.sum_congr rfl fun k _ => h.voqBuffer k.1 k.2
  have hosts : ∀ k ∈ cfg.voqKeys, ∀ p ∈ s.shelf k, p.dst < cfg.hostNum := by
    intro k _ p member
    have rule := h.stored.ruled k.1 k.2 p member
    exact (cfg.hosts p.dst).mp (by rw [rule]; rfl)
  rw [bytes, ← sum_shelfTally cfg.hostNum PacketUnit.dst hosts]
  exact Finset.sum_congr rfl fun d _ => (h.stored.buffering d).symm

theorem voqsExact (h : s.Counted cfg) : s.VoqsExact cfg where
  located g v p member := ⟨h.stored.ruled g v p member, (h.stored.valid g).located v p member⟩
  buffering := h.stored.buffering
  voqBuffer := h.voqBuffer
  total := sum_buffering h
  mapped g d v dynamic same := by
    obtain ⟨-, p, member, rfl⟩ := (h.stored.valid g).mapped dynamic d v same
    rw [h.stored.buffering]
    have pos := p.size_pos
    have weighs := (h.stored.entry member).2
    omega
  kept r := by
    rw [← h.ordered.routes r]
    simp [onRoute, inOrder, stage]
  statistics := by
    unfold doStatistics
    rw [getTotalBytes_eq, getAllBuffering_eq, sum_buffering h, if_pos rfl]

/-- While no VOQ comes to hold 2^32 bytes: every packet that waits is in the VOQ of its destination,
the ledgers are exact, a destination keeps its VOQ while it waits, and no step runs into an assert
of VOQs. -/
theorem voqs_exact (reach : s.Reachable cfg (Event.VoqFits cfg)) :
    s.VoqsExact cfg ∧ ∀ ev : Event, ev.VoqFits cfg s →
      (∀ t, s.step cfg ev = .ok t → SameMapping cfg s t) ∧ ∀ e, s.step cfg ev = .error e →
      e.OfWindow := by
  have counted := counted_reachable reach
  refine ⟨voqsExact counted, fun ev fit => ⟨fun t call => ?_, fun e failed => ?_⟩⟩
  · exact sameMapping_step counted.stored call
  · exact outcome_stop (counted_step counted fit) failed

end State

/-- A run in which a packet waits in a VOQ. -/
theorem voqs_exact_waiting : ∃ s : State, s.pkts 0 1 ≠ [] ∧ s.VoqsExact bulkConfig := by
  obtain ⟨s, reach, waits⟩ : ∃ s : State, s.Reachable bulkConfig (Event.VoqFits bulkConfig) ∧
      s.pkts 0 1 ≠ [] :=
    State.exists_run [.data (bulkPacket 0), .data (bulkPacket 1)] (by decide +kernel)
  exact ⟨s, waits, (State.voqs_exact reach).1⟩

/-- With 2^32 bytes in the VOQ `m_buffering` reads 0. -/
theorem buffering_lost : ∃ s : State, s.Reachable bulkConfig (fun _ _ => True) ∧
    s.getBufferDst 1 = 0 ∧
    ¬s.VoqsExact bulkConfig := by
  obtain ⟨base, s, reach, -, -, filled⟩ := @bulk_waits bulkConfig rfl rfl rfl rfl rfl (2 ^ 22)
  have empty : s.getBufferDst 1 = 0 := by
    rw [filled.buffering, bulk_size]
    decide
  refine ⟨s, reach, empty, fun exact => ?_⟩
  obtain ⟨rest, first⟩ := bulk_first (Nat.two_pow_pos 22)
  rcases filled.pkts with ⟨none, -⟩ | ⟨v, -, waits⟩
  · rw [first] at none
    cases none
  · have member : bulkPacket 1 ∈ s.pkts 0 v := by
      rw [waits, first]
      exact List.mem_cons_self
    have weighs : (bulkPacket 1).size ≤ s.waiting bulkConfig 1 :=
      le_shelfTally (f := s.shelf) (filled.placed.key member) member (decide_eq_true rfl)
    rw [← exact.buffering 1, empty] at weighs
    exact absurd weighs (by decide)

end Floodgate

end Pyrrha

import Pyrrha.Floodgate.WindowLedger
import Pyrrha.Lib.Grid

/-!
The passage of bytes through a switch: what has been admitted for a destination has been handed to
queues, is in an egress cache or waits in a VOQ, byte for byte, and each packet handed to a queue is
one that has been admitted.
-/

namespace Pyrrha
open Lib Finset

namespace Floodgate

variable {cfg : Config} {s t : State} {good : PacketUnit → Prop} {start : List PacketUnit}
    {g voqId ports : ℕ} {p p' : PacketUnit}

namespace State

/-- The bytes of `d` that have been handed to queues. -/
def sentBytes (s : State) (d : ℕ) : ℕ := tally PacketUnit.size (fun p => decide (p.dst = d)) s.sent

/-- Those in the egress caches of the first `ports` devices. -/
def cachedBytes (s : State) (ports d : ℕ) : ℕ :=
  ∑ dev ∈ range ports, tally PacketUnit.size (fun p => decide (p.dst = d)) (s.egressCache dev)

/-- Nothing is lost on the way of `good` packets to the queues, to which `start` has been handed
first. -/
structure Passage (cfg : Config) (ports : ℕ) (good : PacketUnit → Prop) (start : List PacketUnit)
    (s : State) : Prop
    extends s.Ordered cfg, s.Stored cfg where
  routed : ∀ p ∈ s.admitted, p.outDev < ports ∧ good p
  bytes : ∀ d, s.sentBytes d + s.cachedBytes ports d + s.waiting cfg d = s.admittedBytes d
  grows : start <+: s.sent

theorem passage_initial (cfg : Config) (ports : ℕ) (good : PacketUnit → Prop) :
    (State.initial cfg).Passage cfg ports good [] where
  toOrdered := ordered_initial cfg
  valid := (stored_initial cfg).valid
  ruled := (stored_initial cfg).ruled
  buffering := (stored_initial cfg).buffering
  room := (stored_initial cfg).room
  routed _ member := (List.not_mem_nil member).elim
  bytes d := by
    have empty : (State.initial cfg).cachedBytes ports d = 0 := sum_eq_zero fun _ _ => rfl
    rw [waiting_initial, empty]
    rfl
  grows := List.prefix_refl []

theorem passage_of (ordered : s.Ordered cfg) (stored : s.Stored cfg)
    (routed : ∀ p ∈ s.admitted, p.outDev < ports ∧ good p)
    (bytes : ∀ d, s.sentBytes d + s.cachedBytes ports d + s.waiting cfg d = s.admittedBytes d)
    (grows : start <+: s.sent) : s.Passage cfg ports good start :=
  { ordered, stored with routed := routed, bytes := bytes, grows := grows }

theorem passage_again (h : s.Passage cfg ports good start) : s.Passage cfg ports good s.sent :=
  passage_of h.toOrdered h.toStored h.routed h.bytes (List.prefix_refl s.sent)

/-! ### Packets on routes -/

def routeOf (p : PacketUnit) : Route := ⟨p.dst, p.outDev, p.qIndex⟩

theorem takes_routeOf (p : PacketUnit) : (routeOf p).takes p = true :=
  decide_eq_true ⟨rfl, rfl, rfl⟩

theorem mem_of_routeOf {l : List PacketUnit} (member : p ∈ l) : p.bare ∈ (routeOf p).of l :=
  List.mem_map_of_mem (List.mem_filter.mpr ⟨member, takes_routeOf p⟩)

theorem admitted_of_onRoute (ordered : s.Ordered cfg)
    (member : p.bare ∈ s.onRoute cfg (routeOf p)) : ∃ q ∈ s.admitted, q.bare = p.bare := by
  rw [ordered.routes] at member
  obtain ⟨q, filtered, same⟩ := List.mem_map.mp member
  exact ⟨q, (List.mem_filter.mp filtered).1, same⟩

theorem admitted_of_sent (ordered : s.Ordered cfg) (member : p ∈ s.sent) :
    ∃ q ∈ s.admitted, q.bare = p.bare :=
  admitted_of_onRoute ordered (List.mem_append_left _ (mem_of_routeOf member))

theorem admitted_of_stage (ordered : s.Ordered cfg) (k : Stage)
    (member : p.bare ∈ s.stage cfg (routeOf p) k) : ∃ q ∈ s.admitted, q.bare = p.bare := by
  refine admitted_of_onRoute ordered
    (List.mem_append_right _ (List.mem_flatMap.mpr ⟨k, ?_, member⟩))
  cases k <;> simp

theorem admitted_of_cached (ordered : s.Ordered cfg) (member : p ∈ s.egressCache p.outDev) :
    ∃ q ∈ s.admitted, q.bare = p.bare :=
  admitted_of_stage ordered .cache (mem_of_routeOf member)

theorem admitted_of_voq (ordered : s.Ordered cfg) (placed : s.Placed cfg)
    (member : p ∈ s.pkts g voqId) : ∃ q ∈ s.admitted, q.bare = p.bare := by
  refine admitted_of_stage ordered .voq ?_
  have rule := placed.ruled g voqId p member
  have found := (placed.valid g).located voqId p member
  have voq : s.voqOf cfg p.dst = s.pkts g voqId := by
    rw [voqOf_group rule, found]
    rfl
  show p.bare ∈ (routeOf p).of (s.voqOf cfg p.dst)
  rw [voq]
  exact mem_of_routeOf member

/-! ### Moves -/

theorem passage_credited (h : s.Passage cfg ports good start) (same : Credited s t) :
    t.Passage cfg ports good start := by
  refine passage_of (ordered_same h.toOrdered same) (stored_same h.toStored same.voqs) ?_
    (fun d => ?_) ?_
  · rw [same.admitted]
    exact h.routed
  · have waits : t.waiting cfg d = s.waiting cfg d := by
      unfold waiting shelf pkts
      rw [same.voqs.groups]
    rw [sentBytes, cachedBytes, same.sent, same.egressCache, waits, admittedBytes, same.admitted]
    exact h.bytes d
  · rw [same.sent]
    exact h.grows

theorem forwarded_bytes (route : Forwarded cfg s t p) (inside : p.outDev < ports) (d : ℕ) :
    t.sentBytes d + t.cachedBytes ports d =
      s.sentBytes d + s.cachedBytes ports d + if p.dst = d then p.size else 0 := by
  rcases route with direct | pushed
  · rw [sentBytes, direct.sent, tally_concat, cachedBytes, direct.egressCache]
    simp only [decide_eq_true_eq, sentBytes, cachedBytes]
    omega
  · have moved := sum_update (tally PacketUnit.size fun q => decide (q.dst = d)) s.egressCache
      (mem_range.mpr inside) (s.egressCache p.outDev ++ [p])
    rw [tally_concat] at moved
    simp only [decide_eq_true_eq] at moved
    rw [sentBytes, pushed.sent, cachedBytes, pushed.egressCache]
    unfold sentBytes cachedBytes
    omega

theorem forwarded_grows (route : Forwarded cfg s t p) (grows : start <+: s.sent) :
    start <+: t.sent := by
  rcases route with direct | pushed
  · rw [direct.sent]
    exact grows.trans (List.prefix_append _ _)
  · rw [pushed.sent]
    exact grows

theorem passage_released (h : s.Passage cfg ports good start)
    (released : Released cfg s t g voqId p) : t.Passage cfg ports good start := by
  obtain ⟨top, front, bare, -⟩ := shelf_released released
  obtain ⟨q, admitted, same⟩ :=
    admitted_of_voq h.toOrdered h.toPlaced (front ▸ List.mem_cons_self : top ∈ s.pkts g voqId)
  have inside : p.outDev < ports := by
    rw [← (PacketUnit.bare_fields bare).2.2.1, ← (PacketUnit.bare_fields same).2.2.1]
    exact (h.routed q admitted).1
  refine passage_of (ordered_released h.toOrdered h.toStored released)
    (stored_released h.toStored released) ?_ (fun d => ?_) (forwarded_grows released.route h.grows)
  · rw [released.acks.admitted]
    exact h.routed
  · have waits := waiting_released h.toPlaced released d
    have moved := forwarded_bytes released.route inside d
    have before := h.bytes d
    rw [admittedBytes, released.acks.admitted, ← admittedBytes]
    simp only [eq_comm] at waits moved ⊢
    omega

theorem passage_cached (h : s.Passage cfg ports good start) {dev : ℕ} {rest : List PacketUnit}
    (front : s.egressCache dev = p :: rest) (sent : SentCached cfg s t dev p rest) :
    t.Passage cfg ports good start := by
  have outDev := (h.cached dev p (front ▸ List.mem_cons_self)).1
  have member : p ∈ s.egressCache p.outDev := by
    rw [outDev, front]
    exact List.mem_cons_self
  obtain ⟨q, admitted, same⟩ := admitted_of_cached h.toOrdered member
  have inside : dev < ports := by
    rw [← outDev, ← (PacketUnit.bare_fields same).2.2.1]
    exact (h.routed q admitted).1
  refine passage_of (ordered_sent h.toOrdered front sent) (stored_same h.toStored sent.voqs) ?_
    (fun d => ?_) ?_
  · rw [sent.acks.admitted]
    exact h.routed
  · have before := h.bytes d
    have waits : t.waiting cfg d = s.waiting cfg d := by
      unfold waiting shelf pkts
      rw [sent.voqs.groups]
    have moved := sum_update (tally PacketUnit.size fun q => decide (q.dst = d)) s.egressCache
      (mem_range.mpr inside) rest
    rw [front, tally_cons] at moved
    rw [sentBytes, sent.sent, tally_concat, cachedBytes, sent.egressCache, waits, admittedBytes,
      sent.acks.admitted, ← admittedBytes]
    unfold sentBytes cachedBytes at before
    omega
  · rw [sent.sent]
    exact h.grows.trans (List.prefix_append _ _)

theorem passage_rule (cfg : Config) (ports : ℕ) (good : PacketUnit → Prop)
    (start : List PacketUnit) :
    ReleaseRule cfg (fun s => s.Passage cfg ports good start) Assert.OfWindow where
  one s g voqId before := by
    refine outcome_mono (checkAndSendOne_outcome cfg s g voqId) (fun r after => ?_) fun e =>
      release_asserts before.toStored
    split at after
    · obtain ⟨p, released⟩ := after
      exact passage_released before released
    · exact passage_credited before after.only.rewindowed.credited
  cached s dev top rest before front _ :=
    passage_cached before front (sentCached cfg s dev top rest)
  known := .inl rfl
  found s d g before rule missing :=
    .inl ((before.buffering d).trans (before.none_waits rule missing))

theorem passage_arrival (h : s.Passage cfg ports good start) (inside : p.outDev < ports ∧ good p)
    (arrived : Arrived cfg { s with admitted := s.admitted ++ [p] } t p) (stored : t.Stored cfg) :
    t.Passage cfg ports good start := by
  have ordered := ordered_arrival h.toOrdered h.toStored arrived
  have routed : ∀ q ∈ s.admitted ++ [p], q.outDev < ports ∧ good q := by
    intro q member
    rcases List.mem_append.mp member with old | new
    · exact h.routed q old
    · rw [List.mem_singleton.mp new]
      exact inside
  have bytes := admittedBytes_arrival (s := s) (t := t) p
  rcases arrived with ignored | ⟨p', passed⟩ | ⟨g, voqId, G, held⟩
  · have eq := ignored.eq
    subst eq
    refine passage_of ordered stored routed (fun d => ?_) (h.grows.trans (List.prefix_append _ _))
    have before := h.bytes d
    have waits : ({ s with admitted := s.admitted ++ [p] }.doSwitchSend p).waiting cfg d =
      s.waiting cfg d := rfl
    rw [waits, bytes rfl d, sentBytes, doSwitchSend, tally_concat, cachedBytes]
    simp only [decide_eq_true_eq]
    unfold sentBytes cachedBytes at before
    omega
  · refine passage_of ordered stored ?_ (fun d => ?_) (forwarded_grows passed.route h.grows)
    · rw [passed.acks.admitted]
      exact routed
    · have before := h.bytes d
      obtain ⟨dst, size, outDev, -⟩ := PacketUnit.bare_fields passed.bare
      have moved := forwarded_bytes passed.route (outDev ▸ inside.1) d
      have same : t.waiting cfg d = s.waiting cfg d := by
        unfold waiting shelf pkts
        rw [passed.voqs.groups]
      rw [dst, size] at moved
      rw [moved, same, bytes passed.acks.admitted d]
      unfold sentBytes cachedBytes at *
      dsimp only at *
      omega
  · refine passage_of ordered stored ?_ (fun d => ?_) ?_
    · rw [held.acks.admitted]
      exact routed
    · have before := h.bytes d
      have start' : ({ s with admitted := s.admitted ++ [p] } : State).Placed cfg :=
        placed_same h.toPlaced ⟨rfl, rfl, rfl⟩
      have waits := waiting_held start' held d
      have same : ({ s with admitted := s.admitted ++ [p] } : State).waiting cfg d =
        s.waiting cfg d := rfl
      have here : ({ s with admitted := s.admitted ++ [p] } : State).waiting cfg p.dst =
        s.waiting cfg p.dst := rfl
      rw [same, here] at waits
      rw [bytes held.acks.admitted d, waits, sentBytes, cachedBytes, held.sent, held.egressCache]
      unfold sentBytes cachedBytes at before
      by_cases hit : d = p.dst
      · rw [if_pos hit, if_pos hit.symm, ← hit]
        dsimp only
        omega
      · rw [if_neg hit, if_neg fun same => hit same.symm]
        exact before
    · rw [held.sent]
      exact h.grows

theorem passage_step {ev : Event} (h : s.Passage cfg ports good start) (fits : ev.Fits cfg s)
    (inside : ∀ p, ev = .data p → p.outDev < ports ∧ good p) (call : s.step cfg ev = .ok t) :
    t.Passage cfg ports good start := by
  have credited : ∀ s t : State, s.Passage cfg ports good start → Credited s t →
      t.Passage cfg ports good start :=
    fun s t before same => passage_credited before same
  have after : Outcome (fun t => t.Passage cfg ports good start) Assert.OfWindow
      (s.step cfg ev) := by
    refine (passage_rule cfg ports good start).step (fun _ window => window) credited ?_ h
    rintro p rfl
    have stored := stored_step h.toStored fits
    refine outcome_of (fun t ends => ?_) fun e fails => outcome_stop stored fails
    have arrived := outcome_result (sendToDev_outcome cfg s p) ends
    exact passage_arrival h (inside p rfl) arrived (outcome_result stored ends)
  have done := outcome_result after call
  exact done

end State

end Floodgate

end Pyrrha

import Pyrrha.Floodgate.Overflow
import Pyrrha.Lib.Pipeline

/-!
The packets of a destination keep their order through VOQ, egress cache and queue: on each route,
what has been sent, what is in the cache and what is in the VOQ are together what has been admitted.
-/

namespace Pyrrha
open Lib

namespace Floodgate

variable {cfg : Config} {s t : State} {g voqId : ℕ} {p p' : PacketUnit}

/-- A destination, an egress port and a queue. -/
structure Route where
  dst : ℕ
  outDev : ℕ
  qIndex : ℕ

namespace Route

variable (r : Route)

def takes (p : PacketUnit) : Bool :=
  decide (p.dst = r.dst ∧ p.outDev = r.outDev ∧ p.qIndex = r.qIndex)

/-- The packets of a list on the route, without their tags. -/
def of (l : List PacketUnit) : List PacketUnit := (l.filter r.takes).map PacketUnit.bare

@[simp] theorem of_nil : r.of [] = [] := rfl

theorem of_append (l m : List PacketUnit) : r.of (l ++ m) = r.of l ++ r.of m := by simp [of]

theorem of_cons (l : List PacketUnit) : r.of (p :: l) = r.of [p] ++ r.of l := r.of_append [p] l

theorem of_none {l : List PacketUnit} (none : ∀ p ∈ l, r.takes p = false) : r.of l = [] := by
  rw [of, List.filter_eq_nil_iff.mpr fun p member => by simp [none p member]]
  rfl

theorem of_taken (taken : r.takes p = true) : r.of [p] = [p.bare] := by simp [of, taken]

theorem of_other (other : r.takes p = false) : r.of [p] = [] := by simp [of, other]

theorem takes_bare (bare : p'.bare = p.bare) : r.takes p' = r.takes p := by
  obtain ⟨dst, -, outDev, qIndex⟩ := PacketUnit.bare_fields bare
  unfold takes
  rw [dst, outDev, qIndex]

theorem of_bare (bare : p'.bare = p.bare) : r.of [p'] = r.of [p] := by
  cases taken : r.takes p with
  | true => rw [r.of_taken taken, r.of_taken ((r.takes_bare bare).trans taken), bare]
  | false => rw [r.of_other taken, r.of_other ((r.takes_bare bare).trans taken)]

theorem takes_fields (taken : r.takes p = true) : p.dst = r.dst ∧ p.outDev = r.outDev ∧
    p.qIndex = r.qIndex :=
  of_decide_eq_true taken

end Route

/-- Where a packet can wait. -/
inductive Stage where
  | voq
  | cache

namespace State

/-- The packets of the VOQ that `FindVOQId` names for a destination. -/
def voqOf (cfg : Config) (s : State) (dst : ℕ) : List PacketUnit :=
  match cfg.dst2group dst with
  | some (.group g) => (((s.groups g).findVOQId (cfg.group g) dst).map (s.pkts g)).getD []
  | _ => []

def stage (cfg : Config) (s : State) (r : Route) : Stage → List PacketUnit
  | .voq => r.of (s.voqOf cfg r.dst)
  | .cache => r.of (s.egressCache r.outDev)

/-- What a switch has admitted on a route: what it has sent, then what is in the cache, then what is
in the VOQ. -/
def onRoute (cfg : Config) (s : State) (r : Route) : List PacketUnit :=
  inOrder (r.of s.sent) (s.stage cfg r) [.voq, .cache]

/-- Which packets are in the egress caches. -/
structure Cached (cfg : Config) (s : State) : Prop where
  cached : ∀ dev, ∀ p ∈ s.egressCache dev, p.outDev = dev ∧
    ∃ g, cfg.dst2group p.dst = some (.group g)
  direct : cfg.usePortWin = false → ∀ dev, s.egressCache dev = []

/-- Every route holds its packets in the order of admission. -/
structure Ordered (cfg : Config) (s : State) : Prop extends Cached cfg s where
  routes : ∀ r, s.onRoute cfg r = r.of s.admitted

/-! ### The VOQ of a destination -/

theorem voqOf_group {d : ℕ} (rule : cfg.dst2group d = some (.group g)) :
    s.voqOf cfg d = (((s.groups g).findVOQId (cfg.group g) d).map (s.pkts g)).getD [] := by
  unfold voqOf
  rw [rule]

theorem of_voqOf (placed : s.Placed cfg) (r : Route) {v : ℕ}
    (rule : cfg.dst2group r.dst = some (.group g))
    (kept : ∀ w, (s.groups g).findVOQId (cfg.group g) r.dst = some w → w = v) :
    r.of (s.voqOf cfg r.dst) = r.of (s.pkts g v) := by
  rw [voqOf_group rule]
  cases found : (s.groups g).findVOQId (cfg.group g) r.dst with
  | some w =>
    rw [kept w found]
    rfl
  | none =>
    refine (r.of_none fun q member => ?_).symm
    refine Bool.eq_false_of_not_eq_true fun taken => ?_
    have place := (placed.valid g).located v q member
    rw [(r.takes_fields taken).1, found] at place
    cases place

theorem voqOf_same (same : SameVoqs s t) (d : ℕ) : t.voqOf cfg d = s.voqOf cfg d := by
  unfold voqOf pkts
  rw [same.groups]

/-- Nothing waits in a VOQ for a destination without bytes in `m_buffering`. -/
theorem stage_voq_empty (stored : s.Stored cfg) (r : Route) (empty : s.getBufferDst r.dst = 0) :
    s.stage cfg r .voq = [] := by
  refine r.of_none fun q member => Bool.eq_false_of_not_eq_true fun taken => ?_
  have dst := (r.takes_fields taken).1
  unfold voqOf at member
  split at member
  · rename_i g rule
    cases found : (s.groups g).findVOQId (cfg.group g) r.dst with
    | none =>
      rw [found] at member
      cases member
    | some v =>
      rw [found] at member
      have waits : q ∈ s.pkts g v := member
      have here := (stored.entry waits).2
      rw [dst, ← stored.buffering r.dst, empty] at here
      have pos := q.size_pos
      omega
  · cases member

theorem voqOf_other (r : Route) {v : ℕ}
    (found : ∀ g', (t.groups g').findVOQId (cfg.group g') r.dst =
      (s.groups g').findVOQId (cfg.group g') r.dst)
    (others : ∀ k, k ≠ (g, v) → t.shelf k = s.shelf k)
    (here : r.of (t.pkts g v) = r.of (s.pkts g v)) :
    r.of (t.voqOf cfg r.dst) = r.of (s.voqOf cfg r.dst) := by
  unfold voqOf
  split
  · rename_i g' rule
    rw [found]
    cases (s.groups g').findVOQId (cfg.group g') r.dst with
    | none => rfl
    | some w =>
      by_cases same : (g', w) = (g, v)
      · obtain ⟨rfl, rfl⟩ := Prod.mk.inj same
        exact here
      · exact congrArg r.of (others (g', w) same)
  · rfl

theorem voqOf_held {G : Group} (placed : s.Placed cfg) (held : Held cfg s t g voqId G p)
    (r : Route) : r.of (t.voqOf cfg r.dst) = r.of (s.voqOf cfg r.dst) ++ r.of [p] := by
  have got := placed.got held
  have after := placed_held placed held
  obtain ⟨joined, others⟩ := shelf_held held got
  by_cases here : r.dst = p.dst
  · have rule : cfg.dst2group r.dst = some (.group g) := here ▸ held.rule
    have found : (t.groups g).findVOQId (cfg.group g) r.dst = some voqId := by
      rw [held.groups, Function.update_self, here]
      exact got.found
    rw [of_voqOf placed r rule fun w mapped => got.kept w (here ▸ mapped),
      of_voqOf after r rule fun w mapped => Option.some.inj (mapped.symm.trans found), joined,
        r.of_append]
  · have other : r.of [p] = [] :=
      r.of_other (Bool.eq_false_of_not_eq_true fun taken => here (r.takes_fields taken).1.symm)
    rw [other, List.append_nil]
    refine voqOf_other r (fun g' => ?_) others ?_
    · rw [held.groups]
      by_cases group : g' = g
      · subst group
        rw [Function.update_self]
        exact got.others r.dst here
      · rw [Function.update_of_ne group]
    · rw [joined, r.of_append, other, List.append_nil]

theorem voqOf_released (stored : s.Stored cfg) (h : Released cfg s t g voqId p) (r : Route) :
    r.of (s.voqOf cfg r.dst) = r.of [p] ++ r.of (t.voqOf cfg r.dst) := by
  have after := placed_released stored h
  obtain ⟨-, rest, -, -, groups⟩ := h.front
  obtain ⟨top, front, bare, others⟩ := shelf_released h
  have dst := (PacketUnit.bare_fields bare).1
  have first : r.of (s.pkts g voqId) = r.of [p] ++ r.of (t.pkts g voqId) := by
    rw [front, r.of_cons, r.of_bare bare]
  by_cases here : r.dst = p.dst
  · have rule : cfg.dst2group r.dst = some (.group g) :=
      (here.trans dst.symm) ▸ stored.ruled g voqId top (front ▸ List.mem_cons_self)
    have found : (s.groups g).findVOQId (cfg.group g) r.dst = some voqId := here ▸ h.found
    rw [of_voqOf stored.toPlaced r rule fun w mapped => Option.some.inj (mapped.symm.trans found),
      first]
    refine congrArg (r.of [p] ++ ·) (of_voqOf after r rule fun w mapped => ?_).symm
    rw [groups, Function.update_self, here] at mapped
    have before := Group.findVOQId_of_release mapped
    rw [Group.findVOQId_setPkts, h.found] at before
    exact (Option.some.inj before).symm
  · have other : r.of [p] = [] :=
      r.of_other (Bool.eq_false_of_not_eq_true fun taken => here (r.takes_fields taken).1.symm)
    rw [other, List.nil_append]
    refine (voqOf_other r (fun g' => ?_) others ?_).symm
    · rw [groups]
      by_cases group : g' = g
      · subst group
        rw [Function.update_self, Group.findVOQId_release _ _ _ _ here, Group.findVOQId_setPkts]
      · rw [Function.update_of_ne group]
    · rw [first, other, List.nil_append]

/-! ### Moves -/

theorem ordered_initial (cfg : Config) : (State.initial cfg).Ordered cfg where
  routes r := by
    have empty : (State.initial cfg).voqOf cfg r.dst = [] := by
      unfold voqOf
      split
      · cases (((State.initial cfg).groups _).findVOQId _ r.dst) <;> rfl
      · rfl
    refine inOrder_empty fun k _ => ?_
    cases k with
    | voq =>
      show r.of ((State.initial cfg).voqOf cfg r.dst) = []
      rw [empty]
      rfl
    | cache => rfl
  cached _ _ member := (List.not_mem_nil member).elim
  direct _ _ := rfl

theorem ordered_same (before : s.Ordered cfg) (same : Credited s t) : t.Ordered cfg where
  routes r := by
    have stages : ∀ k ∈ [Stage.voq, .cache], t.stage cfg r k = s.stage cfg r k := by
      intro k _
      cases k with
      | voq => exact congrArg r.of (voqOf_same same.voqs r.dst)
      | cache =>
        show r.of (t.egressCache r.outDev) = _
        rw [same.egressCache]
        rfl
    rw [onRoute, same.sent, inOrder_congr stages, same.admitted]
    exact before.routes r
  cached := by
    rw [same.egressCache]
    exact before.cached
  direct := by
    rw [same.egressCache]
    exact before.direct

theorem forwarded_other {r : Route} (route : Forwarded cfg s t p) (other : r.takes p = false) :
    r.of t.sent = r.of s.sent ∧ t.stage cfg r .cache = s.stage cfg r .cache := by
  have nothing := r.of_other other
  dsimp only [stage]
  rcases route with ⟨sent, cache, -, -, -⟩ | ⟨-, sent, cache, -, -⟩
  · rw [sent, cache, r.of_append, nothing, List.append_nil]
    exact ⟨rfl, rfl⟩
  · rw [sent, cache, Function.update_apply]
    refine ⟨rfl, ?_⟩
    split
    · rename_i here
      rw [r.of_append, nothing, List.append_nil, here]
    · rfl

/-- A packet that goes on joins what is sent if the cache of its route is empty, otherwise the
cache. -/
theorem forwarded_taken {r : Route} (before : s.Cached cfg) (route : Forwarded cfg s t p)
    (taken : r.takes p = true) :
    (r.of t.sent = r.of s.sent ++ [p.bare] ∧ s.stage cfg r .cache = [] ∧
      t.stage cfg r .cache = []) ∨
    (r.of t.sent = r.of s.sent ∧ t.stage cfg r .cache = s.stage cfg r .cache ++ [p.bare]) := by
  have first := r.of_taken taken
  have outDev := (r.takes_fields taken).2.1
  unfold stage
  rcases route with ⟨sent, cache, -, empty, -⟩ | ⟨-, sent, cache, -, -⟩
  · have none : s.egressCache r.outDev = [] := by
      cases port : cfg.usePortWin with
      | true => exact outDev ▸ empty port
      | false => exact before.direct port r.outDev
    rw [sent, cache, r.of_append, first, none]
    exact .inl ⟨rfl, rfl, rfl⟩
  · rw [sent, cache, outDev, Function.update_self, r.of_append, first]
    exact .inr ⟨rfl, rfl⟩

theorem cached_forwarded (before : s.Cached cfg) (route : Forwarded cfg s t p)
    (grouped : ∃ g, cfg.dst2group p.dst = some (.group g)) : t.Cached cfg := by
  rcases route with ⟨-, cache, -, -, -⟩ | ⟨port, -, cache, -, -⟩
  · exact ⟨cache ▸ before.cached, cache ▸ before.direct⟩
  · refine ⟨fun dev q member => ?_, fun none => absurd port (by simp [none])⟩
    rw [cache, Function.update_apply] at member
    split at member
    · rename_i here
      subst here
      rcases List.mem_append.mp member with old | new
      · exact before.cached p.outDev q old
      · rw [List.mem_singleton.mp new]
        exact ⟨rfl, grouped⟩
    · exact before.cached dev q member

theorem onRoute_ignored (before : s.Cached cfg) (rule : cfg.dst2group p.dst = some .ignore)
    (r : Route) : (s.doSwitchSend p).onRoute cfg r = s.onRoute cfg r ++ r.of [p] := by
  have stages : ∀ k ∈ [Stage.voq, .cache], (s.doSwitchSend p).stage cfg r k = s.stage cfg r k := by
    intro k _
    cases k <;> rfl
  have sent : r.of (s.doSwitchSend p).sent = r.of s.sent ++ r.of [p] := r.of_append s.sent [p]
  rw [onRoute, onRoute, sent, inOrder_congr stages]
  cases taken : r.takes p with
  | false => rw [r.of_other taken, List.append_nil, List.append_nil]
  | true =>
    have dst := (r.takes_fields taken).1
    have empty : ∀ k ∈ [Stage.voq, .cache], s.stage cfg r k = [] := by
      intro k _
      cases k with
      | voq =>
        show r.of (s.voqOf cfg r.dst) = []
        unfold voqOf
        rw [← dst, rule]
        rfl
      | cache =>
        refine r.of_none fun q member => Bool.eq_false_of_not_eq_true fun also => ?_
        obtain ⟨-, g, grouped⟩ := before.cached r.outDev q member
        rw [(r.takes_fields also).1, ← dst, rule] at grouped
        cases grouped
    rw [inOrder_empty empty, inOrder_empty empty]

/-- A packet that passes its window goes after all packets of its route: none of them waits in a
VOQ. -/
theorem onRoute_passed (before : s.Cached cfg) (stored : s.Stored cfg) (h : Passed cfg s t p p')
    (r : Route) :
    t.onRoute cfg r = s.onRoute cfg r ++ r.of [p] := by
  have voq : t.stage cfg r .voq = s.stage cfg r .voq := congrArg r.of (voqOf_same h.voqs r.dst)
  cases taken : r.takes p' with
  | false =>
    obtain ⟨sent, cache⟩ := forwarded_other h.route taken
    have stages : ∀ k ∈ [Stage.voq, .cache], t.stage cfg r k = s.stage cfg r k := by
      intro k _
      cases k with
      | voq => exact voq
      | cache => exact cache
    rw [onRoute, sent, inOrder_congr stages, r.of_other ((r.takes_bare h.bare).symm.trans taken),
      List.append_nil]
    rfl
  | true =>
    have empty : s.stage cfg r .voq = [] := by
      refine stage_voq_empty stored r ?_
      rw [← (r.takes_fields taken).1, (PacketUnit.bare_fields h.bare).1]
      exact h.none
    rw [← r.of_bare h.bare, r.of_taken taken]
    rcases forwarded_taken before h.route taken with ⟨sent, none, none'⟩ | ⟨sent, cache⟩
    · have emptied : ∀ k ∈ [Stage.voq, .cache], s.stage cfg r k = [] ∧ t.stage cfg r k = [] := by
        intro k _
        cases k with
        | voq => exact ⟨empty, voq.trans empty⟩
        | cache => exact ⟨none, none'⟩
      rw [onRoute, onRoute, sent, inOrder_empty fun k member => (emptied k member).1,
        inOrder_empty fun k member => (emptied k member).2]
    · rw [onRoute, onRoute, sent]
      show inOrder _ _ ([Stage.voq] ++ Stage.cache :: []) =
        inOrder _ _ ([Stage.voq] ++ Stage.cache :: []) ++ _
      refine inOrder_enter ?_ ?_ cache nofun
      · intro k member
        rw [List.mem_singleton.mp member]
        exact empty
      · intro k member
        rw [List.mem_singleton.mp member]
        exact voq

theorem onRoute_held {G : Group} (stored : s.Placed cfg) (h : Held cfg s t g voqId G p)
    (r : Route) : t.onRoute cfg r = s.onRoute cfg r ++ r.of [p] := by
  have voq : t.stage cfg r .voq = s.stage cfg r .voq ++ r.of [p] := voqOf_held stored h r
  have cache : t.stage cfg r .cache = s.stage cfg r .cache := by
    unfold stage
    rw [h.egressCache]
  rw [onRoute, onRoute, h.sent]
  cases taken : r.takes p with
  | false =>
    rw [r.of_other taken, List.append_nil] at voq ⊢
    refine inOrder_congr fun k _ => ?_
    cases k with
    | voq => exact voq
    | cache => exact cache
  | true =>
    rw [r.of_taken taken] at voq ⊢
    show inOrder _ _ ([] ++ Stage.voq :: [Stage.cache]) =
      inOrder _ _ ([] ++ Stage.voq :: [Stage.cache]) ++ _
    refine inOrder_enter nofun nofun voq ?_
    intro k member
    rw [List.mem_singleton.mp member]
    exact cache

theorem onRoute_released (before : s.Cached cfg) (stored : s.Stored cfg)
    (h : Released cfg s t g voqId p) (r : Route) : t.onRoute cfg r = s.onRoute cfg r := by
  have voq : s.stage cfg r .voq = r.of [p] ++ t.stage cfg r .voq := voqOf_released stored h r
  rw [onRoute, onRoute]
  cases taken : r.takes p with
  | false =>
    obtain ⟨sent, cache⟩ := forwarded_other h.route taken
    rw [r.of_other taken, List.nil_append] at voq
    rw [sent]
    refine inOrder_congr fun k _ => ?_
    cases k with
    | voq => exact voq.symm
    | cache => exact cache
  | true =>
    rw [r.of_taken taken] at voq
    rcases forwarded_taken before h.route taken with ⟨sent, none, none'⟩ | ⟨sent, cache⟩
    · rw [sent]
      show inOrder _ _ ([] ++ Stage.voq :: [Stage.cache]) =
        inOrder _ _ ([] ++ Stage.voq :: [Stage.cache])
      refine inOrder_finish ?_ voq nofun ?_
      · intro k member
        rw [List.mem_singleton.mp member]
        exact none
      · intro k member
        rw [List.mem_singleton.mp member]
        exact none'.trans none.symm
    · rw [sent]
      show inOrder _ _ ([] ++ Stage.voq :: ([] ++ Stage.cache :: [])) =
        inOrder _ _ ([] ++ Stage.voq :: ([] ++ Stage.cache :: []))
      exact inOrder_move nofun voq cache nofun nofun nofun

theorem onRoute_cached (before : s.Cached cfg) {dev : ℕ} {rest : List PacketUnit}
    (front : s.egressCache dev = p :: rest)
    (h : SentCached cfg s t dev p rest) (r : Route) : t.onRoute cfg r = s.onRoute cfg r := by
  have voq : t.stage cfg r .voq = s.stage cfg r .voq := congrArg r.of (voqOf_same h.voqs r.dst)
  have outDev := (before.cached dev p (front ▸ List.mem_cons_self)).1
  rw [onRoute, onRoute, h.sent, r.of_append]
  cases taken : r.takes p with
  | false =>
    rw [r.of_other taken, List.append_nil]
    refine inOrder_congr fun k _ => ?_
    cases k with
    | voq => exact voq
    | cache =>
      dsimp only [stage]
      rw [h.egressCache, Function.update_apply]
      split
      · rename_i here
        rw [here, front, r.of_cons, r.of_other taken, List.nil_append]
      · rfl
  | true =>
    have here : r.outDev = dev := (r.takes_fields taken).2.1.symm.trans outDev
    rw [r.of_taken taken]
    show inOrder _ _ ([Stage.voq] ++ Stage.cache :: []) =
      inOrder _ _ ([Stage.voq] ++ Stage.cache :: [])
    refine inOrder_finish nofun ?_ ?_ nofun
    · unfold stage
      rw [h.egressCache, here, Function.update_self, front, r.of_cons, r.of_taken taken]
      rfl
    · intro k member
      rw [List.mem_singleton.mp member]
      exact voq

theorem cached_sent (before : s.Cached cfg) {dev : ℕ} {rest : List PacketUnit}
    (front : s.egressCache dev = p :: rest) (h : SentCached cfg s t dev p rest) : t.Cached cfg := by
  refine ⟨fun dev' q member => ?_, fun none => ?_⟩
  · rw [h.egressCache, Function.update_apply] at member
    split at member
    · rename_i here
      subst here
      exact before.cached dev' q (front ▸ List.mem_cons_of_mem p member)
    · exact before.cached dev' q member
  · have empty := before.direct none dev
    rw [front] at empty
    cases empty

/-! ### Runs -/

theorem ordered_released (ordered : s.Ordered cfg) (stored : s.Stored cfg)
    (h : Released cfg s t g voqId p) : t.Ordered cfg := by
  obtain ⟨top, front, bare, -⟩ := shelf_released h
  have grouped : ∃ g, cfg.dst2group p.dst = some (.group g) := by
    rw [← (PacketUnit.bare_fields bare).1]
    exact ⟨g, stored.ruled g voqId top (front ▸ List.mem_cons_self)⟩
  refine ⟨cached_forwarded ordered.toCached h.route grouped, fun r => ?_⟩
  rw [onRoute_released ordered.toCached stored h r, h.acks.admitted]
  exact ordered.routes r

theorem ordered_sent (ordered : s.Ordered cfg) {dev : ℕ} {rest : List PacketUnit}
    (front : s.egressCache dev = p :: rest)
    (h : SentCached cfg s t dev p rest) : t.Ordered cfg := by
  refine ⟨cached_sent ordered.toCached front h, fun r => ?_⟩
  rw [onRoute_cached ordered.toCached front h r, h.acks.admitted]
  exact ordered.routes r

theorem ordered_rule (cfg : Config) :
    ReleaseRule cfg (fun s => s.Ordered cfg ∧ s.Stored cfg) Assert.OfWindow where
  one s g voqId before := by
    obtain ⟨ordered, stored⟩ := before
    refine outcome_mono (checkAndSendOne_outcome cfg s g voqId) (fun r after => ?_) fun e =>
      release_asserts stored
    split at after
    · obtain ⟨p, released⟩ := after
      exact ⟨ordered_released ordered stored released, stored_released stored released⟩
    · have same := after.only.rewindowed
      exact ⟨ordered_same ordered same.credited, stored_same stored same.sameVoqs⟩
  cached s dev top rest before front _ := by
    have sent := sentCached cfg s dev top rest
    exact ⟨ordered_sent before.1 front sent, stored_same before.2 sent.voqs⟩
  known := .inl rfl
  found s d g before rule missing :=
    .inl ((before.2.buffering d).trans (before.2.none_waits rule missing))

theorem ordered_arrival (ordered : s.Ordered cfg) (stored : s.Stored cfg)
    (h : Arrived cfg { s with admitted := s.admitted ++ [p] } t p) : t.Ordered cfg := by
  have cached : ({ s with admitted := s.admitted ++ [p] } : State).Cached cfg :=
    ⟨ordered.cached, ordered.direct⟩
  have start : ({ s with admitted := s.admitted ++ [p] } : State).Stored cfg :=
    stored_same stored ⟨rfl, rfl, rfl⟩
  have last : ∀ r : Route, r.of (s.admitted ++ [p]) = s.onRoute cfg r ++ r.of [p] := by
    intro r
    rw [r.of_append, ordered.routes]
  rcases h with ignored | ⟨p', passed⟩ | ⟨g, voqId, G, held⟩
  · rw [ignored.eq]
    refine ⟨⟨ordered.cached, ordered.direct⟩, fun r => ?_⟩
    exact (onRoute_ignored cached ignored.rule r).trans (last r).symm
  · have grouped : ∃ g, cfg.dst2group p'.dst = some (.group g) := by
      rw [(PacketUnit.bare_fields passed.bare).1]
      exact passed.grouped
    refine ⟨cached_forwarded cached passed.route grouped, fun r => ?_⟩
    rw [onRoute_passed cached start passed r, passed.acks.admitted]
    exact (last r).symm
  · have same : t.Cached cfg := by
      refine ⟨?_, ?_⟩ <;> rw [held.egressCache]
      · exact ordered.cached
      · exact ordered.direct
    refine ⟨same, fun r => ?_⟩
    rw [onRoute_held start.toPlaced held r, held.acks.admitted]
    exact (last r).symm

theorem ordered_reachable (reach : s.Reachable cfg (Event.Fits cfg)) :
    s.Ordered cfg ∧ s.Stored cfg := by
  induction reach with
  | initial => exact ⟨ordered_initial cfg, stored_initial cfg⟩
  | @step s t ev _ fit call before =>
    have credited : ∀ s t : State, (s.Ordered cfg ∧ s.Stored cfg) → Credited s t →
        t.Ordered cfg ∧ t.Stored cfg :=
      fun s t at_s credit => ⟨ordered_same at_s.1 credit, stored_same at_s.2 credit.voqs⟩
    have after : Outcome (fun t => t.Ordered cfg ∧ t.Stored cfg) Assert.OfWindow
        (s.step cfg ev) := by
      refine (ordered_rule cfg).step (fun _ window => window) credited ?_ before
      rintro p rfl
      have stored := stored_step before.2 fit
      refine outcome_of (fun t ends => ?_) fun e fails => outcome_stop stored fails
      have arrived := outcome_result (sendToDev_outcome cfg s p) ends
      exact ⟨ordered_arrival before.1 before.2 arrived, outcome_result stored ends⟩
    have done := outcome_result after call
    exact done

/-- As long as `m_buffering` does not wrap, the packets of a destination go to each queue in the
order in which they have been admitted, and none is lost. -/
theorem never_reordered (reach : s.Reachable cfg (Event.Fits cfg)) (r : Route) :
    r.of s.sent <+: r.of s.admitted := by
  rw [← (ordered_reachable reach).1.routes r]
  exact List.prefix_append _ _

end State

/-- A run in which a packet waits in a VOQ. -/
theorem never_reordered_waiting : ∃ s : State, s.Reachable bulkConfig (Event.Fits bulkConfig) ∧
    s.pkts 0 1 ≠ [] ∧
    (Route.mk 1 2 1).of s.sent <+: (Route.mk 1 2 1).of s.admitted := by
  obtain ⟨s, reach, waits⟩ : ∃ s : State, s.Reachable bulkConfig (Event.Fits bulkConfig) ∧
      s.pkts 0 1 ≠ [] :=
    State.exists_run [.data (bulkPacket 0), .data (bulkPacket 1)] (by decide +kernel)
  exact ⟨s, reach, waits, State.never_reordered reach _⟩

/-- With 2^32 bytes in the VOQ, a later packet of 400 bytes overtakes those that wait. -/
theorem overtaken : ∃ s : State, s.Reachable bulkConfig (fun _ _ => True) ∧
    ¬(Route.mk 1 2 1).of s.sent <+: (Route.mk 1 2 1).of s.admitted := by
  obtain ⟨base, s, reach, admitted₀, sent₀, filled⟩ :=
    @bulk_waits bulkConfig rfl rfl rfl rfl rfl (2 ^ 22)
  have empty : s.getBufferDst 1 = 0 := by
    rw [filled.buffering, bulk_size]
    decide
  let late : PacketUnit := { smallPacket (2 ^ 22 + 1) 399 with outDev := 2 }
  obtain ⟨t, call, sent, admitted, -⟩ :=
    @State.sendToDev_passes bulkConfig s 0 476 late rfl rfl rfl rfl filled.window (by decide) empty
  have arrives : s.step bulkConfig (.data late) = .ok t := call
  obtain ⟨rest, first⟩ := bulk_first (Nat.two_pow_pos 22)
  have onSent : (Route.mk 1 2 1).of t.sent = [late.bare] := by
    rw [sent, filled.sent, sent₀]
    rfl
  have onAdmitted : (Route.mk 1 2 1).of t.admitted =
      (bulkPacket 1).bare :: (Route.mk 1 2 1).of (rest ++ [late]) := by
    rw [admitted, filled.admitted, admitted₀, first, List.append_assoc]
    exact Route.of_append _ [bulkPacket 0, bulkPacket 1] (rest ++ [late])
  refine ⟨t, .step reach trivial arrives, fun before => ?_⟩
  rw [onSent, onAdmitted, List.cons_prefix_cons] at before
  exact absurd (congrArg PacketUnit.uid before.1) (by decide)

end Floodgate

end Pyrrha

import Pyrrha.Switch.Crossing
import Pyrrha.Switch.Fifo

/-!
The way of a packet down the hierarchy: the CIQs it visits belong to different roots ahead of it, at
ever lower levels with the farthest match, at ever higher ones with the nearest.
-/

namespace Pyrrha
open Lib Relation

variable {n : ℕ} {cfg : Config n}

/-- The starts of the loops of `MatchNextCongestionRoot`, computed in `uint32_t`, are the numbers
meant. -/
structure StartFits (tag : RoutingTag) (currLevel : Option ℕ) : Prop where
  level : sub32 tag.activeHop tag.currHop = tag.activeHop - tag.currHop
  nearest : add32 (add32 tag.currHop 1) (currLevel.getD 0) = tag.currHop + 1 + currLevel.getD 0
  positive : 1 ≤ currLevel.getD (tag.activeHop - tag.currHop)
  farthest : sub32 (add32 tag.currHop (currLevel.getD (tag.activeHop - tag.currHop))) 1 =
    tag.currHop + currLevel.getD (tag.activeHop - tag.currHop) - 1

namespace Switch

/-! ### One match -/

theorem matchFirst_total {s : Switch n} {dev : Fin n} {tag : RoutingTag} {hops : List ℕ}
    (inside : ∀ i ∈ hops, i < tag.activeHop) : ∃ m, s.matchFirst dev tag hops = .ok m := by
  induction hops with
  | nil => exact ⟨none, rfl⟩
  | cons i rest ih =>
    have within := inside i List.mem_cons_self
    have at_i : tag.routing[i]? = some tag.routing[i] := List.getElem?_eq_getElem within
    have later := ih fun j member => inside j (List.mem_cons_of_mem i member)
    unfold matchFirst
    rw [at_i]
    dsimp only
    split
    · split
      · exact ⟨_, rfl⟩
      · exact later
    · exact later

/-- The first match is anywhere ahead, a later one beyond the level or below it. -/
theorem mem_matchHops_level {tag : RoutingTag} {L i : ℕ} (member : i ∈ matchHops cfg tag (some L)) :
    if cfg.nearestMatch then L < i - tag.currHop else i - tag.currHop < L := by
  unfold matchHops at member
  split at member
  · rename_i nearest
    simp only [List.mem_range'_1, Option.getD_some] at member
    rw [if_pos nearest]
    omega
  · rename_i farthest
    simp only [List.mem_reverse, List.mem_range'_1, Option.getD_some] at member
    rw [if_neg farthest]
    omega

theorem matchHops_inside {tag : RoutingTag} {level : Option ℕ}
    (within : ∀ L ∈ level, tag.currHop + L < tag.activeHop) (i : ℕ)
    (member : i ∈ matchHops cfg tag level) : i < tag.activeHop := by
  unfold matchHops at member
  cases level with
  | none =>
    split at member <;> simp only [List.mem_reverse, List.mem_range'_1,
      Option.getD_none] at member <;> omega
  | some L =>
    have below := within L rfl
    split at member <;> simp only [List.mem_reverse, List.mem_range'_1,
      Option.getD_some] at member <;> omega

theorem match_total {s : Switch n} {dev : Fin n} {tag : RoutingTag} {level : Option ℕ}
    (live : tag.currHop < tag.activeHop)
    (fits : tag.activeHop < 2 ^ 32) (within : ∀ L ∈ level, 0 < L ∧
      tag.currHop + L < tag.activeHop) :
    (∃ m, s.matchNextCongestionRoot cfg dev tag level = .ok m) ∧ StartFits tag level := by
  constructor
  · have nonempty : ¬(!cfg.nearestMatch && level.isNone && tag.activeHop == 0) = true := by
      simp only [Bool.and_eq_true, beq_iff_eq, not_and]
      omega
    unfold matchNextCongestionRoot
    rw [if_neg nonempty]
    exact matchFirst_total (matchHops_inside fun L member => (within L member).2)
  · have distance : sub32 tag.activeHop tag.currHop = tag.activeHop - tag.currHop :=
      sub32_exact fits live.le
    have next : add32 tag.currHop 1 = tag.currHop + 1 := add32_exact (by omega)
    cases level with
    | none =>
      refine ⟨distance, ?_, ?_, ?_⟩ <;> simp only [Option.getD_none]
      · rw [next]
        exact add32_exact (by omega)
      · omega
      · rw [add32_exact (by omega), sub32_exact (by omega) (by omega)]
    | some L =>
      obtain ⟨pos, below⟩ := within L rfl
      refine ⟨distance, ?_, ?_, ?_⟩ <;> simp only [Option.getD_some]
      · rw [next]
        exact add32_exact (by omega)
      · exact pos
      · rw [add32_exact (by omega), sub32_exact (by omega) (by omega)]

/-! ### The queues a packet visits -/

/-- The root and the level of the queue `q` of `dev`, if it is a CIQ. -/
def visit (s : Switch n) (dev : Fin n) (q : ℕ) : List (Spot × ℕ) :=
  ((s.ciqRootMap dev q).bind fun r => (s.getEntry r).map fun e => (r, e.hop)).toList

/-- The packet `p`, in the queue `q` of `dev` after `moves` moves, and the CIQs it has visited since
`SendToDev` took it in, the last one first. Whatever happens between its moves, the entries a match
looks at are aligned with its route. -/
inductive Travels (cfg : Config n) (dev : Fin n) (p : Packet n) : Switch n → ℕ → ℕ →
    List (Spot × ℕ) → Prop where
  | enter {s t : Switch n} {q : ℕ} (reached : Operates cfg (fun _ _ => True) s)
      (aligned : HopAligned s dev p.routingTag) (matched : s.matchQ cfg dev p = .ok q)
      (call : s.acceptPacket cfg dev p = .ok t) (stored : p ∈ t.queues dev q) :
      Travels cfg dev p t 0 q (s.visit dev q)
  | wait {s t : Switch n} {op : Op n} {moves q : ℕ} {log : List (Spot × ℕ)}
      (before : Travels cfg dev p s moves q log)
      (call : Operated cfg s op t) (stays : p ∈ t.queues dev q) : Travels cfg dev p t moves q log
  | move {s t : Switch n} {moves level q nextQ : ℕ} {rest : List (Packet n)} {b b' : Bool}
      {log : List (Spot × ℕ)}
      (before : Travels cfg dev p s moves q log) (aligned : HopAligned s dev p.routingTag)
      (visited : q ∈ s.priorities dev level) (head : s.queues dev q = p :: rest)
      (check : s.checkDequeueHierQ cfg dev level q p = .ok (some (some nextQ)))
      (call : hierMove cfg dev level (s, b) q = .ok (t, b')) :
      Travels cfg dev p t (moves + 1) nextQ (s.visit dev nextQ ++ log)

theorem visit_output {s : Switch n} (T : Tables s) {dev : Fin n} {q : ℕ} (output : q < queueNum) :
    s.visit dev q = [] := by
  have free : s.ciqRootMap dev q = none := by
    cases mapped : s.ciqRootMap dev q with
    | none => rfl
    | some r =>
      have high := (T.range dev q r mapped).1
      omega
  simp only [visit, free, Option.bind_none, Option.toList_none]

/-- A match sends the packet to an output queue, or to the CIQ of a root ahead of it. -/
structure Matched (cfg : Config n) (s : Switch n) (dev : Fin n) (tag : RoutingTag)
    (level : Option ℕ) (q i : ℕ) (r : Spot) (e : CAMEntry n) : Prop where
  hop : i ∈ matchHops cfg tag level
  root : tag.routing[i]? = some r
  found : s.getEntry r = some e
  ciq : e.oportCiq dev = some q

theorem matched_of_match {s : Switch n} {dev : Fin n} {tag : RoutingTag} {level : Option ℕ}
    {q : ℕ} {r : Spot}
    {e : CAMEntry n} (call : s.matchNextCongestionRoot cfg dev tag level = .ok (some (r, e)))
    (ciq : e.oportCiq dev = some q) : ∃ i, Matched cfg s dev tag level q i r e := by
  obtain ⟨before, i, after, hops, root, found, -, -⟩ := matchFirst_some (match_first call)
  exact ⟨i, by simp [hops], root, found, ciq⟩

theorem matchQ_matched {s : Switch n} {dev : Fin n} {p : Packet n} {q : ℕ}
    (call : s.matchQ cfg dev p = .ok q) :
    q < queueNum ∨ ∃ i r e, Matched cfg s dev p.routingTag none q i r e := by
  rcases matchQ_cases call with ⟨rfl, -⟩ | ⟨-, r, e, matched, ciq⟩
  · exact .inl (matchDefaultQ_lt cfg p.header)
  · obtain ⟨i, hit⟩ := matched_of_match matched ciq
    exact .inr ⟨i, r, e, hit⟩

theorem checkDequeueHierQ_matched {s : Switch n} {dev : Fin n} {level q nextQ : ℕ} {p : Packet n}
    (check : s.checkDequeueHierQ cfg dev level q p = .ok (some (some nextQ))) :
    nextQ < queueNum ∨ ∃ i r e, Matched cfg s dev p.routingTag (some level) nextQ i r e := by
  rcases (checkDequeueHierQ_cases check).2 with ⟨rfl, -⟩ | ⟨r, e, matched, ciq⟩
  · exact .inl (matchDefaultQ_lt cfg p.header)
  · obtain ⟨i, hit⟩ := matched_of_match matched ciq
    exact .inr ⟨i, r, e, hit⟩

section

variable {s : Switch n} {dev : Fin n} {tag : RoutingTag} {level : Option ℕ} {q i : ℕ} {r : Spot}
    {e : CAMEntry n}

theorem matched_gt (hit : Matched cfg s dev tag level q i r e) : tag.currHop < i :=
  mem_matchHops_gt hit.hop

theorem matched_mapped (T : Tables s) (hit : Matched cfg s dev tag level q i r e) :
    s.ciqRootMap dev q = some r :=
  tables_map T hit.found hit.ciq

theorem matched_visit (T : Tables s) (aligned : HopAligned s dev tag)
    (hit : Matched cfg s dev tag level q i r e) : s.visit dev q = [(r, i - tag.currHop)] := by
  have hop := aligned i r e (matched_gt hit) hit.root hit.found (by rw [hit.ciq]; exact Option.some_ne_none q)
  simp only [visit, matched_mapped T hit, Option.bind_some, hit.found, Option.map_some,
    Option.toList_some, hop]

end

/-! ### A CIQ keeps its root while a packet waits in it -/

theorem accept_shrinks {s t : Switch n} {idx : Fin n} {p : Packet n}
    (call : s.acceptPacket cfg idx p = .ok t) : MapShrinks s t := by
  rcases acceptPacket_cases call with rfl | ⟨q, u, -, -, -, entered, rfl⟩
  · exact fun _ _ _ mapped => mapped
  · have map : u.ciqRootMap = s.ciqRootMap := (notifyEnqueue_map entered).1
    intro x c r mapped
    rw [← map]
    rcases switchSend_cases cfg u idx q p with same | pushed
    · rw [same] at mapped
      exact mapped
    · rw [pushed] at mapped
      exact mapped

theorem transmit_shrinks {s t : Switch n} {dev : Fin n} {pick : Option (ℕ × ℕ)}
    (call : s.dequeueAndTransmit cfg dev pick = .ok t) : MapShrinks s t := by
  rcases dequeueAndTransmit_cases call with rfl | ⟨q, k, p, -, -, -, left⟩
  · exact fun _ _ _ mapped => mapped
  rcases switchNotifyDequeue_cases left with ⟨-, rfl⟩ | ⟨-, -, u, removed, notified⟩
  · exact fun _ _ _ mapped => mapped
  · obtain ⟨-, rfl⟩ := removeFromEgressAdmission_ok removed
    exact fun x c r mapped => notifyDequeue_map notified x c r mapped

theorem move_shrinks {s t : Switch n} {dev : Fin n} {level q : ℕ} {b b' : Bool}
    (call : hierMove cfg dev level (s, b) q = .ok (t, b')) : MapShrinks s t := by
  rcases hierMove_cases call with rfl | ⟨p, rest, nextQ, u, v, w, -, -, left, removed, entered, rfl⟩
  · exact fun _ _ _ mapped => mapped
  · obtain ⟨-, rfl⟩ := removeFromEgressAdmission_ok removed
    have map : w.ciqRootMap = u.ciqRootMap := (notifyEnqueue_map entered).1
    intro x c r mapped
    exact notifyDequeue_map left x c r (by rw [← map]; exact mapped)

theorem signals_shrink {s t : Switch n} {tag : CITag} {p : Fin n} (T : Tables s)
    (h : SignalCtls cfg tag p s t) (dev : Fin n) (c : ℕ) (r : Spot) (nonempty : s.queues dev c ≠ [])
    (mapped : t.ciqRootMap dev c = some r) :
    s.ciqRootMap dev c = some r := by
  have kept := signalCtls_preserve (I := fun u => Tables u ∧ u.queues = s.queues ∧
      (u.ciqRootMap dev c = some r → s.ciqRootMap dev c = some r))
    (fun u v before last => ⟨packetCtl_tables before.1 last,
      (packetCtl_buffers last).queues.trans before.2.1,
      fun mapped => before.2.2 (packetCtl_map last dev c r mapped)⟩)
    (fun u v before last => ⟨signalCtl_tables before.1 last,
      (signalCtl_queues before.1 last).1.trans before.2.1,
      fun mapped => before.2.2 ((signalCtl_map before.1 last dev c r (by rw [before.2.1]; exact nonempty)).mp mapped)⟩)
    ⟨T, rfl, id⟩ h
  exact kept.2.2 mapped

theorem operated_shrinks {s t : Switch n} {op : Op n} (T : Tables s) (call : Operated cfg s op t)
    (dev : Fin n) (c : ℕ)
    (r : Spot) (nonempty : s.queues dev c ≠ []) (mapped : t.ciqRootMap dev c = some r) :
    s.ciqRootMap dev c = some r := by
  cases call with
  | accept _ call => exact accept_shrinks call dev c r mapped
  | transmit call => exact transmit_shrinks call dev c r mapped
  | move _ call => exact move_shrinks call dev c r mapped
  | signal call =>
    obtain ⟨u, pick', steps, sent⟩ := receiveCI_ctl call
    exact signals_shrink T steps dev c r nonempty (transmit_shrinks sent dev c r mapped)
  | frame built =>
    rename_i x p
    rcases switchSend_cases cfg s x 0 p with same | pushed
    · rw [same] at mapped
      exact mapped
    · rw [pushed] at mapped
      exact mapped

theorem root_kept {s t : Switch n} {dev : Fin n} {c : ℕ} {r : Spot} {p : Packet n} (T' : Tables t)
    (ciq : queueNum ≤ c)
    (mapped : s.ciqRootMap dev c = some r) (shrinks : ∀ r, t.ciqRootMap dev c = some r →
      s.ciqRootMap dev c = some r)
    (member : p ∈ t.queues dev c) : t.ciqRootMap dev c = some r := by
  obtain ⟨r', mapped'⟩ :=
    Option.ne_none_iff_exists'.mp (T'.stored dev c ciq (List.ne_nil_of_mem member))
  have same := shrinks r' mapped'
  rw [mapped] at same
  rw [mapped', same]

/-! ### The descent -/

/-- A later visit is at another root, and at a lower level with the farthest match, at a higher one
with the nearest. -/
def Below (cfg : Config n) (later earlier : Spot × ℕ) : Prop :=
  later.1 ≠ earlier.1 ∧ if cfg.nearestMatch then earlier.2 < later.2 else later.2 < earlier.2

/-- The root of a visit is at the distance of its level on the rest of the route. -/
def OnRoute (tag : RoutingTag) (v : Spot × ℕ) : Prop :=
  0 < v.2 ∧ tag.currHop + v.2 < tag.activeHop ∧ tag.routing[tag.currHop + v.2]? = some v.1

structure Descending (cfg : Config n) (dev : Fin n) (p : Packet n) (s : Switch n) (moves q : ℕ)
    (log : List (Spot × ℕ)) : Prop where
  tables : Tables s
  member : p ∈ s.queues dev q
  order : log.Pairwise (Below cfg)
  onRoute : ∀ v ∈ log, OnRoute p.routingTag v
  output : q < queueNum → log.length = moves
  ciq : queueNum ≤ q → ∃ r L rest, log = (r, L) :: rest ∧ rest.length = moves ∧
    s.ciqRootMap dev q = some r

section

variable {s t : Switch n} {dev : Fin n} {p : Packet n} {moves level q nextQ : ℕ}
    {log : List (Spot × ℕ)}

theorem matched_onRoute {level : Option ℕ} {i : ℕ} {r : Spot} {e : CAMEntry n}
    (hit : Matched cfg s dev p.routingTag level q i r e) :
    OnRoute p.routingTag (r, i - p.routingTag.currHop) := by
  have after := matched_gt hit
  have place : p.routingTag.currHop + (i - p.routingTag.currHop) = i := by omega
  obtain ⟨inside, -⟩ := List.getElem?_eq_some_iff.mp hit.root
  refine ⟨?_, ?_, ?_⟩
  · show 0 < i - p.routingTag.currHop
    omega
  · show p.routingTag.currHop + (i - p.routingTag.currHop) < p.routingTag.activeHop
    rw [place]
    exact inside
  · show p.routingTag.routing[p.routingTag.currHop + (i - p.routingTag.currHop)]? = some r
    rw [place]
    exact hit.root

theorem descending_enter (T : Tables s) (aligned : HopAligned s dev p.routingTag)
    (matched : s.matchQ cfg dev p = .ok q)
    (call : s.acceptPacket cfg dev p = .ok t) (stored : p ∈ t.queues dev q) :
    Descending cfg dev p t 0 q (s.visit dev q) := by
  have T' := acceptPacket_tables T call
  rcases matchQ_matched matched with output | ⟨i, r, e, hit⟩
  · rw [visit_output T output]
    exact ⟨T', stored, .nil, fun _ member => absurd member List.not_mem_nil, fun _ => rfl,
      fun ciq => by omega⟩
  · rw [matched_visit T aligned hit]
    have mapped := matched_mapped T hit
    have high := (T.range dev q r mapped).1
    refine ⟨T', stored, List.pairwise_singleton .., fun v member => ?_, fun output => by omega,
      fun ciq => ?_⟩
    · rw [List.mem_singleton.mp member]
      exact matched_onRoute hit
    · exact ⟨r, _, [], rfl, rfl, root_kept T' ciq mapped
        (fun r mapped => accept_shrinks call dev q r mapped) stored⟩

theorem descending_wait (before : Descending cfg dev p s moves q log) {op : Op n}
    (call : Operated cfg s op t)
    (stays : p ∈ t.queues dev q) : Descending cfg dev p t moves q log := by
  have T' := operated_tables before.tables call
  refine ⟨T', stays, before.order, before.onRoute, before.output, fun ciq => ?_⟩
  obtain ⟨r, L, rest, same, count, mapped⟩ := before.ciq ciq
  exact ⟨r, L, rest, same, count, root_kept T' ciq mapped
    (fun r mapped => operated_shrinks before.tables call dev q r
    (List.ne_nil_of_mem before.member) mapped) stays⟩

theorem descending_level (before : Descending cfg dev p s moves q log)
    (aligned : HopAligned s dev p.routingTag) (visited : q ∈ s.priorities dev level) :
    ∃ r rest, log = (r, level) :: rest ∧ rest.length = moves ∧ s.ciqRootMap dev q = some r := by
  have ciq := (before.tables.levels dev level q visited).1
  obtain ⟨r, L, rest, rfl, count, mapped⟩ := before.ciq ciq
  obtain ⟨e, found, registered⟩ := tables_entry before.tables mapped
  obtain ⟨pos, -, root⟩ := before.onRoute (r, L) List.mem_cons_self
  have distance := aligned _ r e (Nat.lt_add_of_pos_right pos) root found
    (by rw [registered]; exact Option.some_ne_none q)
  have hop := before.tables.hops dev level q r e visited mapped found
  have same : L = level := by
    rw [← hop, distance]
    omega
  subst same
  exact ⟨r, rest, rfl, count, mapped⟩

theorem descending_below (before : Descending cfg dev p s moves q log)
    (aligned : HopAligned s dev p.routingTag)
    (visited : q ∈ s.priorities dev level) {i : ℕ} {r : Spot} {e : CAMEntry n}
    (hit : Matched cfg s dev p.routingTag (some level) nextQ i r e) :
    ∀ v ∈ log, Below cfg (r, i - p.routingTag.currHop) v := by
  obtain ⟨r₀, rest, rfl, -, -⟩ := descending_level before aligned visited
  have step := mem_matchHops_level hit.hop
  have order := (List.pairwise_cons.mp before.order).1
  intro v member
  -- the levels of all visits are on the same side of the new one
  have beyond : if cfg.nearestMatch then v.2 < i - p.routingTag.currHop
      else i - p.routingTag.currHop < v.2 := by
    rcases List.mem_cons.mp member with rfl | earlier
    · exact step
    · have last := (order v earlier).2
      dsimp only at last
      split at step
      · rename_i nearest
        rw [if_pos nearest] at last ⊢
        omega
      · rename_i farthest
        rw [if_neg farthest] at last ⊢
        omega
  refine ⟨fun same => ?_, beyond⟩
  -- one entry cannot be aligned with two distances
  obtain ⟨pos, -, root⟩ := before.onRoute v member
  have registered : e.oportCiq dev ≠ none := by rw [hit.ciq]; exact Option.some_ne_none nextQ
  have one := aligned i r e (matched_gt hit) hit.root hit.found registered
  have other :=
    aligned _ r e (Nat.lt_add_of_pos_right pos) (by rw [root, ← same]) hit.found registered
  split at beyond <;> omega

theorem descending_move (before : Descending cfg dev p s moves q log)
    (aligned : HopAligned s dev p.routingTag)
    (visited : q ∈ s.priorities dev level) {rest : List (Packet n)}
    (head : s.queues dev q = p :: rest)
    (check : s.checkDequeueHierQ cfg dev level q p = .ok (some (some nextQ))) {b b' : Bool}
    (call : hierMove cfg dev level (s, b) q = .ok (t, b')) :
    Descending cfg dev p t (moves + 1) nextQ (s.visit dev nextQ ++ log) := by
  have T := before.tables
  have T' := hierMove_tables T call
  obtain ⟨r₀, earlier, same, count, -⟩ := descending_level before aligned visited
  have length : log.length = moves + 1 := by rw [same, List.length_cons, count]
  have stored : p ∈ t.queues dev nextQ := by
    obtain ⟨u, v, w, left, removed, entered, rfl⟩ := hierMove_enters head check call
    have queues : (w.updateEgressAdmission dev nextQ p.size).queues =
        ((s.popQueue dev q 0 p).pushQueue dev p nextQ).queues :=
          (hierMove_queues left removed entered).1
    rw [queues]
    simp [pushQueue]
  rcases checkDequeueHierQ_matched check with output | ⟨i, r, e, hit⟩
  · rw [visit_output T output, List.nil_append]
    exact ⟨T', stored, before.order, before.onRoute, fun _ => length, fun ciq => by omega⟩
  · rw [matched_visit T aligned hit, List.singleton_append]
    have mapped := matched_mapped T hit
    have high := (T.range dev nextQ r mapped).1
    refine ⟨T', stored, List.pairwise_cons.mpr ⟨descending_below before aligned visited hit,
      before.order⟩, fun v member => ?_, fun output => by omega, fun ciq => ?_⟩
    · rcases List.mem_cons.mp member with rfl | old
      · exact matched_onRoute hit
      · exact before.onRoute v old
    · exact ⟨r, _, log, rfl, length,
        root_kept T' ciq mapped (fun r mapped => move_shrinks call dev nextQ r mapped) stored⟩

theorem travels_descending (h : Travels cfg dev p s moves q log) :
    Descending cfg dev p s moves q log := by
  induction h with
  | enter reached aligned matched call stored =>
    exact descending_enter (operates_tables reached) aligned matched call stored
  | wait _ call stays ih => exact descending_wait ih call stays
  | move _ aligned visited head check call ih =>
      exact descending_move ih aligned visited head check call

/-- Different levels between the current hop and the end of the route: there are not many. -/
theorem visits_bounded {tag : RoutingTag} (order : log.Pairwise (Below cfg))
    (onRoute : ∀ v ∈ log, OnRoute tag v) : log.length ≤ tag.activeHop - tag.currHop - 1 := by
  have distinct : (log.map Prod.snd).Nodup := by
    refine List.pairwise_map.mpr (order.imp fun below same => ?_)
    have levels := below.2
    split at levels <;> omega
  have inside : log.map Prod.snd ⊆ List.range' 1 (tag.activeHop - tag.currHop - 1) := by
    intro L member
    obtain ⟨v, visited, rfl⟩ := List.mem_map.mp member
    obtain ⟨pos, below, -⟩ := onRoute v visited
    rw [List.mem_range'_1]
    omega
  have bound := (List.subperm_of_subset distinct inside).length_le
  rwa [List.length_map, List.length_range'] at bound

end

/-- A packet whose route goes on descends: its first match and all later ones stay on the route, the
CIQs it visits belong to different roots ahead of it, their levels fall or rise with the policy, and
after `ActiveHop - CurrHop - 1` moves at the latest it is in an output queue. -/
theorem packet_descends (cfg : Config n) (dev : Fin n) (p : Packet n)
    (live : p.routingTag.currHop < p.routingTag.activeHop)
    (fits : p.routingTag.activeHop < 2 ^ 32) :
    (∀ s : Switch n, (∃ m, s.matchNextCongestionRoot cfg dev p.routingTag none = .ok m) ∧
      StartFits p.routingTag none) ∧
    ∀ s moves q log, Travels cfg dev p s moves q log → log.Pairwise (Below cfg) ∧
      (∀ v ∈ log, OnRoute p.routingTag v) ∧
      moves ≤ p.routingTag.activeHop - p.routingTag.currHop - 1 ∧
      (moves = p.routingTag.activeHop - p.routingTag.currHop - 1 → q < queueNum) ∧
      ∀ level, q ∈ s.priorities dev level → HopAligned s dev p.routingTag →
        (∃ r, log.head? = some (r, level) ∧ s.ciqRootMap dev q = some r) ∧
        (∃ m, s.matchNextCongestionRoot cfg dev p.routingTag (some level) = .ok m) ∧
        StartFits p.routingTag (some level) := by
  refine ⟨fun s => match_total live fits fun L absent => (by cases absent),
    fun s moves q log travels => ?_⟩
  have h := travels_descending travels
  have bound := visits_bounded h.order h.onRoute
  refine ⟨h.order, h.onRoute, ?_, fun last => ?_, fun level visited aligned => ?_⟩
  · by_cases output : q < queueNum
    · rw [← h.output output]
      exact bound
    · obtain ⟨r, L, rest, rfl, count, -⟩ := h.ciq (not_lt.mp output)
      rw [List.length_cons, count] at bound
      omega
  · by_contra ciq
    obtain ⟨r, L, rest, rfl, count, -⟩ := h.ciq (not_lt.mp ciq)
    rw [List.length_cons, count] at bound
    omega
  · obtain ⟨r, rest, rfl, -, mapped⟩ := descending_level h aligned visited
    obtain ⟨pos, below, -⟩ := h.onRoute (r, level) List.mem_cons_self
    exact ⟨⟨r, rfl, mapped⟩, match_total live fits fun L same => by cases same; exact ⟨pos, below⟩⟩

/-- Roots two hops and one hop ahead, both paused. -/
def twoRootsOps : List (Op 2) :=
  [.signal ⟨.pause, ⟨8, 0⟩, 2, ⟨0, 0⟩⟩ 0 none, .signal ⟨.pause, ⟨7, 0⟩, 1, ⟨0, 0⟩⟩ 0 none]

/-- A packet that meets both of them. -/
def descendingPacket : Packet 2 := dataPacket 0 1 [⟨1, 0⟩, ⟨7, 0⟩, ⟨8, 0⟩]

/-- It goes to the farther root first, and once that has resumed to the nearer one. -/
theorem packet_descends_two : ∃ s : Switch 2,
    Travels (smallConfig 2) 0 descendingPacket s 1 9 [(⟨7, 0⟩, 1), (⟨8, 0⟩, 2)] ∧
    [((⟨7, 0⟩ : Spot), 1), (⟨8, 0⟩, 2)].Pairwise (Below (smallConfig 2)) := by
  have ends : ∃ s, performs (smallConfig 2) (fun _ _ => True) {} twoRootsOps = some s ∧
      HopAligned s 0 descendingPacket.routingTag ∧
        s.matchQ (smallConfig 2) 0 descendingPacket = .ok 8 ∧
      s.visit 0 8 = [(⟨8, 0⟩, 2)] ∧ ∃ t, s.acceptPacket (smallConfig 2) 0 descendingPacket = .ok t ∧
      descendingPacket ∈ t.queues 0 8 ∧
        ∃ u, t.receiveCI (smallConfig 2) ⟨.resume, ⟨8, 0⟩, 0, ⟨0, 0⟩⟩ 0 none = .ok u ∧
      descendingPacket ∈ u.queues 0 8 ∧ HopAligned u 0 descendingPacket.routingTag ∧
        8 ∈ u.priorities 0 2 ∧
      u.queues 0 8 = [descendingPacket] ∧
      u.checkDequeueHierQ (smallConfig 2) 0 2 8 descendingPacket = .ok (some (some 9)) ∧
      u.visit 0 9 = [(⟨7, 0⟩, 1)] ∧ ∃ v, hierMove (smallConfig 2) 0 2 (u, false) 8 =
        .ok (v, false) := by
    refine ⟨_, rfl, by decide, rfl, by decide, _, rfl, by decide, _,
      rfl, by decide, by decide, by decide, by decide, rfl, by decide, _, rfl⟩
  obtain ⟨s, ends, aligned, matched, first, t, accepted, stored, u, resumed, stays, aligned',
    visited, head, check, second, v, moved⟩ := ends
  have entered := Travels.enter (operates_performs .initial ends) aligned matched accepted stored
  have waited := Travels.wait entered (.signal resumed) stays
  have travels := Travels.move waited aligned' visited head check moved
  rw [first, second] at travels
  exact ⟨v, travels, ((packet_descends (smallConfig 2) 0 descendingPacket (by decide) (by decide)).2
    _ _ _ _ travels).1⟩

end Switch

end Pyrrha

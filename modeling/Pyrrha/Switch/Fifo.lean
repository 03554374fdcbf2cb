import Pyrrha.Lib.Pipeline
import Pyrrha.Switch.Waiting

/-!
Packets of one flow leave a port in the order in which `SendToDev` accepted them. The CIQs of the
roots ahead of the flow and its default queue form a pipeline: the stages are the hops in the order
in which the first match visits them, and a match from the level of a stage visits the stages after
it.
-/

namespace Pyrrha
open Lib Relation

variable {n : ℕ} {cfg : Config n}

/-- `p` has the route and the default queue of `a`, and is not a frame of this switch. -/
def sameFlow (cfg : Config n) (a p : Packet n) : Bool :=
  !p.isFrame && decide (p.routingTag = a.routingTag) &&
    decide (matchDefaultQ cfg p.header = matchDefaultQ cfg a.header)

theorem sameFlow_iff {a p : Packet n} : sameFlow cfg a p = true ↔
    ¬p.isFrame ∧ p.routingTag = a.routingTag ∧ matchDefaultQ cfg p.header =
      matchDefaultQ cfg a.header := by
  simp [sameFlow, and_assoc]

namespace Switch

/-! ### The stages of a flow -/

theorem range'_split {a m i : ℕ} (h : i ∈ List.range' a m) :
    List.range' a m = List.range' a (i - a) ++ i :: List.range' (i + 1) (a + m - (i + 1)) := by
  rw [List.mem_range'_1] at h
  have tail : i :: List.range' (i + 1) (a + m - (i + 1)) = List.range' i (a + m - i) := by
    rw [show a + m - i = (a + m - (i + 1)) + 1 by omega, List.range'_succ]
  have joined : List.range' a (i - a) ++ List.range' (a + 1 * (i - a)) (a + m - i) =
      List.range' a (i - a + (a + m - i)) := List.range'_append
  rw [show a + 1 * (i - a) = i by omega, show i - a + (a + m - i) = m by omega] at joined
  rw [tail, joined]

theorem matchHops_split {tag : RoutingTag} {i : ℕ} (member : i ∈ matchHops cfg tag none) :
    ∃ before, matchHops cfg tag none = before ++
      i :: matchHops cfg tag (some (i - tag.currHop)) := by
  have ahead := mem_matchHops_gt member
  unfold matchHops at member ⊢
  split at member
  · rename_i nearest
    simp only [nearest, if_true, Option.getD_none, Option.getD_some, Nat.add_zero] at member ⊢
    refine ⟨List.range' (tag.currHop + 1) (i - (tag.currHop + 1)), ?_⟩
    have bounds := List.mem_range'_1.mp member
    rw [range'_split member, show tag.currHop + 1 + (i - tag.currHop) = i + 1 by omega,
      show tag.currHop + 1 + (tag.activeHop - (tag.currHop + 1)) - (i + 1) =
        tag.activeHop - (i + 1) by
        omega]
  · rename_i farthest
    simp only [farthest, Option.getD_none, Option.getD_some] at member ⊢
    rw [List.mem_reverse] at member
    rw [range'_split member, List.reverse_append, List.reverse_cons, List.append_assoc,
      List.singleton_append, show i - (tag.currHop + 1) = i - tag.currHop - 1 by omega]
    exact ⟨_, rfl⟩

theorem matchHops_nodup (cfg : Config n) (tag : RoutingTag) : (matchHops cfg tag none).Nodup := by
  unfold matchHops
  split
  · exact List.nodup_range'
  · exact List.nodup_reverse.mpr List.nodup_range'

theorem mem_matchHops (cfg : Config n) {tag : RoutingTag} {i : ℕ} (after : tag.currHop < i)
    (before : i < tag.activeHop) : i ∈ matchHops cfg tag none := by
  unfold matchHops
  split
  · simp only [Option.getD_none, List.mem_range'_1]
    omega
  · simp only [Option.getD_none, List.mem_reverse, List.mem_range'_1]
    omega

/-! ### Where the packets of a flow are -/

/-- A packet in an output queue is in its default one, and a packet in a CIQ does not default to
queue 0. Frames this switch has built are in queue 0 and are not meant. -/
def Placed (cfg : Config n) (s : Switch n) : Prop :=
  ∀ dev q p, p ∈ s.queues dev q → ¬p.isFrame →
    (q < queueNum → matchDefaultQ cfg p.header = q) ∧
      (queueNum ≤ q → matchDefaultQ cfg p.header ≠ 0)

theorem placed_stay {s t : Switch n} (P : Placed cfg s)
    (stay : ∀ dev q p, p ∈ t.queues dev q → p ∈ s.queues dev q) : Placed cfg t :=
  fun dev q p member data => P dev q p (stay dev q p member) data

theorem placed_push {s : Switch n} (P : Placed cfg s) {dev : Fin n} {q : ℕ} {p : Packet n}
    (place : ¬p.isFrame →
      (q < queueNum → matchDefaultQ cfg p.header = q) ∧
      (queueNum ≤ q → matchDefaultQ cfg p.header ≠ 0)) :
    Placed cfg (s.pushQueue dev p q) := by
  intro x y a member data
  rcases mem_pushQueue member with member | ⟨_, rfl, rfl⟩
  · exact P x y a member data
  · exact place data

theorem acceptPacket_placed {s t : Switch n} (T : Tables s) (P : Placed cfg s) {idx : Fin n}
    {p : Packet n} (h : s.acceptPacket cfg idx p = .ok t) : Placed cfg t := by
  rcases acceptPacket_cases h with rfl | ⟨q, u, matched, _, _, entered, rfl⟩
  · exact P
  have queues : u.queues = s.queues := (notifyEnqueue_buffers entered).queues
  have notified : Placed cfg u := placed_stay P fun x y a member => by rw [queues] at member; exact member
  rcases switchSend_cases cfg u idx q p with same | pushed
  · rw [same]
    exact notified
  · rw [pushed]
    refine placed_push notified fun _ => ?_
    rcases matchQ_cases matched with ⟨rfl, _⟩ | ⟨nonzero, r, e, match_r, at_q⟩
    · have lt := matchDefaultQ_lt cfg p.header
      exact ⟨fun _ => rfl, fun _ => by omega⟩
    · have ciq := tables_high T (ahead_of_match match_r).1 idx q at_q
      exact ⟨fun _ => by omega, fun _ => nonzero⟩

theorem dequeueAndTransmit_placed {s t : Switch n} (P : Placed cfg s) {dev : Fin n}
    {pick : Option (ℕ × ℕ)} (h : s.dequeueAndTransmit cfg dev pick = .ok t) : Placed cfg t := by
  rcases dequeueAndTransmit_cases h with rfl | ⟨q, k, p, _, _, _, left⟩
  · exact P
  refine placed_stay P fun x y a member => ?_
  rcases switchNotifyDequeue_cases left with ⟨_, rfl⟩ | ⟨_, _, u, removed, notified⟩
  · exact mem_popQueue (p := p) member
  · obtain ⟨_, rfl⟩ := removeFromEgressAdmission_ok removed
    rw [(notifyDequeue_buffers notified).queues] at member
    exact mem_popQueue (p := p) member

theorem hierMove_placed {s t : Switch n} (T : Tables s) (P : Placed cfg s) {dev : Fin n}
    {level q : ℕ}
    {b b' : Bool} (ciq : queueNum ≤ q) (h : hierMove cfg dev level (s, b) q = .ok (t, b')) :
    Placed cfg t := by
  rcases hierMove_cases h with rfl | ⟨p, rest, nextQ, u, v, w, head, check, left, removed,
    entered, rfl⟩
  · exact P
  have queues := (hierMove_queues left removed entered).1
  have popped : Placed cfg (s.popQueue dev q 0 p) := placed_stay P fun _ _ _ member =>
    mem_popQueue member
  refine placed_stay (placed_push popped fun data => ?_) fun x y a member => by rw [← queues]; exact member
  have nonzero := (P dev q p (by simp [head]) data).2 ciq
  rcases (checkDequeueHierQ_cases check).2 with ⟨rfl, _⟩ | ⟨r, e, matched, at_next⟩
  · have lt := matchDefaultQ_lt cfg p.header
    exact ⟨fun _ => rfl, fun _ => by omega⟩
  · have high := tables_high T (ahead_of_match matched).1 dev nextQ at_next
    exact ⟨fun _ => by omega, fun _ => nonzero⟩

/-! ### The pipeline of a flow -/

/-- The packets of the flow of `a` that wait for the root at the hop `i`. -/
def stage (cfg : Config n) (s : Switch n) (dev : Fin n) (a : Packet n) (i : ℕ) : List (Packet n) :=
  match a.routingTag.routing[i]? with
  | none => []
  | some r => (s.waiting dev r).filter (sameFlow cfg a)

/-- The packets of the flow of `a` on `dev`, in the order of their arrival. -/
def held (cfg : Config n) (s : Switch n) (dev : Fin n) (a : Packet n) : List (Packet n) :=
  inOrder ((s.queues dev (matchDefaultQ cfg a.header)).filter (sameFlow cfg a)) (s.stage cfg dev a)
    (matchHops cfg a.routingTag none)

theorem stage_congr {s t : Switch n} {dev : Fin n} (a : Packet n) {i : ℕ}
    (same : ∀ r, a.routingTag.routing[i]? = some r →
      (t.waiting dev r).filter (sameFlow cfg a) = (s.waiting dev r).filter (sameFlow cfg a)) :
    t.stage cfg dev a i = s.stage cfg dev a i := by
  unfold stage
  split
  · rfl
  · rename_i r at_i
    exact same r at_i

theorem held_congr {s t : Switch n} {dev : Fin n} (a : Packet n)
    (last : (t.queues dev (matchDefaultQ cfg a.header)).filter (sameFlow cfg a) =
      (s.queues dev (matchDefaultQ cfg a.header)).filter (sameFlow cfg a))
    (same : ∀ r, (t.waiting dev r).filter (sameFlow cfg a) =
      (s.waiting dev r).filter (sameFlow cfg a)) :
    t.held cfg dev a = s.held cfg dev a := by
  unfold held
  rw [last]
  exact inOrder_congr fun i _ => stage_congr a fun r _ => same r

theorem stage_at {s : Switch n} {dev : Fin n} {a : Packet n} {i : ℕ} {r : Spot}
    (at_i : a.routingTag.routing[i]? = some r) :
    s.stage cfg dev a i = (s.waiting dev r).filter (sameFlow cfg a) := by
  simp only [stage, at_i]

theorem stage_passed {s : Switch n} {dev : Fin n} {a : Packet n} {hops : List ℕ}
    (passed : s.matchFirst dev a.routingTag hops = .ok none) :
    ∀ i ∈ hops, s.stage cfg dev a i = [] := by
  intro i member
  unfold stage
  split
  · rfl
  · rename_i r at_i
    rw [waiting_absent fun e found => matchFirst_none passed member at_i found, List.filter_nil]

/-- The default queue of a flow is no CIQ, so a push into or a pop from a CIQ leaves it alone. -/
theorem pushQueue_other (s : Switch n) (dev : Fin n) (p : Packet n) {q c : ℕ} (ne : c ≠ q) :
    (s.pushQueue dev p q).queues dev c = s.queues dev c :=
  update₂_of_ne _ _ fun h => ne h.2

theorem popQueue_other (s : Switch n) (dev : Fin n) (p : Packet n) {q k c : ℕ} (ne : c ≠ q) :
    (s.popQueue dev q k p).queues dev c = s.queues dev c :=
  update₂_of_ne _ _ fun h => ne h.2

theorem push_filter (s : Switch n) {dev x : Fin n} {a p : Packet n}
    (other : sameFlow cfg a p = false)
    (q c : ℕ) : ((s.pushQueue dev p q).queues x c).filter (sameFlow cfg a) =
      (s.queues x c).filter (sameFlow cfg a) := by
  simp only [pushQueue, update₂_apply]
  split
  · rename_i here
    rw [here.1, here.2, List.filter_append]
    simp [other]
  · rfl

theorem held_push_other {s t : Switch n} (T : Tables s) (T' : Tables t) {dev x : Fin n}
    {a p : Packet n}
    {q : ℕ} (other : x = dev → sameFlow cfg a p = false) (map : t.ciqRootMap = s.ciqRootMap)
    (queues : t.queues = (s.pushQueue x p q).queues) : t.held cfg dev a = s.held cfg dev a := by
  by_cases here : x = dev
  · subst here
    refine held_congr a ?_ fun r => ?_
    · rw [queues]
      exact push_filter s (other rfl) q _
    · rw [waiting_push T T' map queues]
      split
      · simp [other rfl]
      · rfl
  · have same : t.queues dev = s.queues dev := by
      rw [queues]
      exact update₂_row _ (fun h => here h.symm) _ _
    refine held_congr a (by rw [same]) fun r => ?_
    rw [waiting_congr T T' same fun c r _ => by rw [map]]

/-! ### Arrival -/

theorem held_accept {s t : Switch n} (T : Tables s) (T' : Tables t) (P : Placed cfg s) {dev : Fin n}
    {a p : Packet n} {q : ℕ} (aligned : HopAligned s dev a.routingTag)
    (flow : sameFlow cfg a p = true)
    (matched : s.matchQ cfg dev p = .ok q) (map : t.ciqRootMap = s.ciqRootMap)
    (queues : t.queues = (s.pushQueue dev p q).queues) :
    t.held cfg dev a = s.held cfg dev a ++ [p] := by
  obtain ⟨_, tag, same⟩ := sameFlow_iff.mp flow
  have lt := matchDefaultQ_lt cfg a.header
  have at_queue : ∀ c, t.queues dev c = (s.pushQueue dev p q).queues dev c :=
    fun c => by rw [queues]
  have default : (s.pushQueue dev p (matchDefaultQ cfg a.header)).queues dev
    (matchDefaultQ cfg a.header) =
      s.queues dev (matchDefaultQ cfg a.header) ++ [p] := update₂_same _ _ _ _
  unfold held
  rcases matchQ_cases matched with ⟨rfl, unmatched⟩ | ⟨_, r, e, match_r, at_q⟩
  · -- no root is matched: all stages are empty, and `p` goes to the default queue
    rw [same] at unmatched at_queue queues
    have empty : ∀ i ∈ matchHops cfg a.routingTag none, s.stage cfg dev a i = [] := by
      rcases unmatched with zero | none
      · intro i _
        unfold stage
        split
        · rfl
        rename_i r at_i
        rw [List.filter_eq_nil_iff]
        intro b member in_flow
        obtain ⟨data, _, default⟩ := sameFlow_iff.mp in_flow
        by_cases mapped : ∃ c, s.ciqRootMap dev c = some r
        · obtain ⟨c, mapped⟩ := mapped
          rw [waiting_mapped T mapped] at member
          exact (P dev c b member data).2 (T.range dev c r mapped).1 (default.trans zero)
        · rw [waiting_unmapped T fun c h => mapped ⟨c, h⟩] at member
          cases member
      · rw [tag] at none
        exact stage_passed (match_first none)
    have kept : ∀ i ∈ matchHops cfg a.routingTag none, t.stage cfg dev a i =
        s.stage cfg dev a i := by
      refine fun i _ => stage_congr a fun r _ => ?_
      have oq : s.ciqRootMap dev (matchDefaultQ cfg a.header) ≠ some r := fun h => by
        have := (T.range dev _ r h).1
        omega
      rw [waiting_push T T' map queues, if_neg oq]
    rw [inOrder_empty empty, inOrder_congr kept, inOrder_empty empty, at_queue, default]
    simp [flow]
  · -- the first matching root is at `i`: the stages before it hold nothing
    rw [tag] at match_r
    obtain ⟨before, i, after, hops, at_i, found, _, passed⟩ := matchFirst_some (match_first match_r)
    have mapped := tables_map T found at_q
    have high := (T.range dev q r mapped).1
    have nodup := matchHops_nodup cfg a.routingTag
    rw [hops] at nodup
    have ahead : ∀ j ∈ before ++ i :: after, a.routingTag.currHop < j :=
      fun j member => mem_matchHops_gt (show j ∈ matchHops cfg a.routingTag none by rw [hops]; exact member)
    -- by alignment `r` is at no other hop
    have others : ∀ j ∈ before ++ i :: after, j ≠ i →
        t.stage cfg dev a j = s.stage cfg dev a j := by
      refine fun j member ne => stage_congr a fun r' at_j => ?_
      rw [waiting_push T T' map queues]
      split
      · rename_i eq
        rw [mapped] at eq
        obtain rfl := Option.some.inj eq
        have here := aligned i r e (ahead i (by simp)) at_i found (by simp [at_q])
        have there := aligned j r e (ahead j member) at_j found (by simp [at_q])
        have := ahead i (by simp)
        have := ahead j member
        omega
      · rfl
    have entered : t.stage cfg dev a i = s.stage cfg dev a i ++ [p] := by
      rw [stage_at at_i, stage_at at_i, waiting_push T T' map queues, if_pos mapped,
        List.filter_append]
      simp [flow]
    have last : t.queues dev (matchDefaultQ cfg a.header) =
        s.queues dev (matchDefaultQ cfg a.header) :=
      (at_queue _).trans (pushQueue_other s dev p (by omega))
    rw [hops, last]
    have distinct := List.nodup_append.mp nodup
    refine inOrder_enter (stage_passed passed)
      (fun j member => others j (by simp [member]) ?_) entered
      fun j member => others j (by simp [member]) ?_
    · exact distinct.2.2 j member i (by simp)
    · rintro rfl
      exact (List.nodup_cons.mp distinct.2.1).1 member

/-! ### The hierarchical round -/

theorem pop_filter {s : Switch n} {dev x : Fin n} {a p : Packet n} {q : ℕ} {rest : List (Packet n)}
    (head : s.queues dev q = p :: rest) (other : sameFlow cfg a p = false) (c : ℕ) :
    ((s.popQueue dev q 0 p).queues x c).filter (sameFlow cfg a) =
      (s.queues x c).filter (sameFlow cfg a) := by
  simp only [popQueue, update₂_apply]
  split
  · rename_i here
    simp [here.1, here.2, head, other]
  · rfl

theorem held_pop_other {s : Switch n} (T : Tables s) {dev x : Fin n} {a p : Packet n} {q : ℕ}
    {rest : List (Packet n)} (head : s.queues x q = p :: rest)
    (other : x = dev → sameFlow cfg a p = false) :
    (s.popQueue x q 0 p).held cfg dev a = s.held cfg dev a := by
  by_cases here : x = dev
  · subst here
    refine held_congr a (pop_filter head (other rfl) _) fun r => ?_
    rw [waiting_pop T head]
    split
    · rename_i mapped
      rw [waiting_mapped T mapped, head]
      simp [other rfl]
    · rfl
  · have same : (s.popQueue x q 0 p).queues dev = s.queues dev :=
      update₂_row _ (fun h => here h.symm) _ _
    exact held_congr a (by rw [same]) fun r => by
      rw [waiting_congr T (head_tables T head) same fun _ _ _ => Iff.rfl]

/-- The state between the two halves of a move holds the same packets of every root. -/
theorem held_shrinks {s t : Switch n} (T : Tables s) (T' : Tables t) (M : MapShrinks s t)
    (queues : t.queues = s.queues) (dev : Fin n) (a : Packet n) :
    t.held cfg dev a = s.held cfg dev a :=
  held_congr a (by rw [queues]) fun r => by rw [waiting_shrinks T T' M (by rw [queues]) r]

/-- A move of a packet of the flow, from the CIQ `q` to the queue the match from its level found. -/
theorem held_move {s u t : Switch n} (T : Tables s) (C : Culprits s) (U : Tables u) (T' : Tables t)
    {dev : Fin n} {a p : Packet n} {level q nextQ : ℕ} {rest : List (Packet n)}
    (aligned : HopAligned s dev a.routingTag) (visited : q ∈ s.priorities dev level)
    (head : s.queues dev q = p :: rest) (flow : sameFlow cfg a p = true)
    (check : s.checkDequeueHierQ cfg dev level q p = .ok (some (some nextQ)))
    (M : MapShrinks s u) (queues : u.queues = (s.popQueue dev q 0 p).queues)
    (place : queueNum ≤ nextQ → u.ciqRootMap dev nextQ ≠ none) (map : t.ciqRootMap = u.ciqRootMap)
    (queues' : t.queues = (u.pushQueue dev p nextQ).queues) :
    t.held cfg dev a = s.held cfg dev a := by
  obtain ⟨_, tag, same⟩ := sameFlow_iff.mp flow
  have high := (T.levels dev level q visited).1
  have lt := matchDefaultQ_lt cfg a.header
  -- the packet stands at the stage `i` of its queue
  obtain ⟨r₀, mapped, i, after_i, before_i, at_i⟩ := C dev q p high (by simp [head])
  rw [tag] at after_i before_i at_i
  obtain ⟨e₀, found, ciq⟩ := tables_entry T mapped
  have distance := aligned i r₀ e₀ after_i at_i found (by simp [ciq])
  have hop := T.hops dev level q r₀ e₀ visited mapped found
  obtain ⟨before, split⟩ := matchHops_split (mem_matchHops cfg after_i before_i)
  rw [show i - a.routingTag.currHop = level by omega] at split
  have nodup := matchHops_nodup cfg a.routingTag
  have unique : ∀ j, a.routingTag.currHop < j → a.routingTag.routing[j]? = some r₀ → j = i := by
    intro j after_j at_j
    have := aligned j r₀ e₀ after_j at_j found (by simp [ciq])
    omega
  -- what the two halves do to the packets that wait for a root
  have popped : ∀ r, u.waiting dev r = if s.ciqRootMap dev q = some r then rest
      else s.waiting dev r := by
    intro r
    rw [waiting_shrinks (head_tables T head) U M (by rw [queues]) r, waiting_pop T head]
  have pushed := fun r => waiting_push U T' map queues' r
  have left : ∀ j ∈ matchHops cfg a.routingTag none, j ≠ i →
      u.stage cfg dev a j = s.stage cfg dev a j := by
    refine fun j member ne => stage_congr a fun r at_j => ?_
    rw [popped, if_neg]
    intro eq
    rw [mapped] at eq
    obtain rfl := Option.some.inj eq
    exact ne (unique j (mem_matchHops_gt member) at_j)
  have at_head : s.stage cfg dev a i = p :: u.stage cfg dev a i := by
    rw [stage_at at_i, stage_at at_i, popped, if_pos mapped, waiting_mapped T mapped, head]
    simp [flow]
  have last : u.queues dev (matchDefaultQ cfg a.header) =
      s.queues dev (matchDefaultQ cfg a.header) := by
    rw [queues]
    exact popQueue_other s dev p (by omega)
  have after : ∀ j ∈ matchHops cfg a.routingTag (some level), j ∈ matchHops cfg a.routingTag none ∧
      j ≠ i := by
    intro j member
    refine ⟨by simp [split, member], ?_⟩
    rintro rfl
    exact mem_matchHops_ne member (by omega)
  have first : ∀ j ∈ before, j ∈ matchHops cfg a.routingTag none ∧ j ≠ i := by
    intro j member
    refine ⟨by simp [split, member], ?_⟩
    rw [split] at nodup
    exact (List.nodup_append.mp nodup).2.2 j member i (by simp)
  unfold held
  rcases (checkDequeueHierQ_cases check).2 with ⟨rfl, matched⟩ | ⟨r, e, matched, at_next⟩
  · -- no root between: the packet goes to the default queue
    rw [tag] at matched
    rw [same] at pushed queues'
    have stays : ∀ j, t.stage cfg dev a j = u.stage cfg dev a j := by
      refine fun j => stage_congr a fun r _ => ?_
      have oq : u.ciqRootMap dev (matchDefaultQ cfg a.header) ≠ some r := fun h => by
        have := (U.range dev _ r h).1
        omega
      rw [pushed, if_neg oq]
    have enters : t.queues dev (matchDefaultQ cfg a.header) =
        s.queues dev (matchDefaultQ cfg a.header) ++ [p] := by
      rw [queues', ← last]
      exact update₂_same _ _ _ _
    rw [split, enters, List.filter_append, show [p].filter (sameFlow cfg a) = [p] by simp [flow]]
    refine inOrder_finish (stage_passed (match_first matched)) ?_ ?_ ?_
    · rw [stays, at_head]
    · exact fun j member => (stays j).trans (left j (first j member).1 (first j member).2)
    · exact fun j member => (stays j).trans (left j (after j member).1 (after j member).2)
  · -- the next root `r` is at a later stage `j`
    rw [tag] at matched
    obtain ⟨between, j, rest', hops, at_j, found_r, _, passed⟩ :=
      matchFirst_some (match_first matched)
    have visited_j : j ∈ matchHops cfg a.routingTag (some level) := by simp [hops]
    have next := tables_map T found_r at_next
    have high' := (T.range dev nextQ r next).1
    have next' : u.ciqRootMap dev nextQ = some r := by
      obtain ⟨r', mapped'⟩ := Option.ne_none_iff_exists'.mp (place high')
      rw [← next, mapped']
      exact (M dev nextQ r' mapped').symm
    have stays : ∀ k ∈ matchHops cfg a.routingTag none, k ≠ j →
        t.stage cfg dev a k = u.stage cfg dev a k := by
      refine fun k member ne => stage_congr a fun r' at_k => ?_
      rw [pushed, if_neg]
      intro eq
      rw [next'] at eq
      obtain rfl := Option.some.inj eq
      have here := aligned j r e (mem_matchHops_gt visited_j) at_j found_r (by simp [at_next])
      have there := aligned k r e (mem_matchHops_gt member) at_k found_r (by simp [at_next])
      have := mem_matchHops_gt member
      have := mem_matchHops_gt visited_j
      omega
    have enters : t.stage cfg dev a j = s.stage cfg dev a j ++ [p] := by
      rw [← left j (after j visited_j).1 (after j visited_j).2, stage_at at_j,
        stage_at at_j, pushed, if_pos next', List.filter_append]
      simp [flow]
    have last' : t.queues dev (matchDefaultQ cfg a.header) =
        s.queues dev (matchDefaultQ cfg a.header) := by
      rw [queues', pushQueue_other u dev p (by omega), last]
    have nodup' := nodup
    rw [split, hops] at nodup'
    have later := (List.nodup_cons.mp (List.nodup_append.mp nodup').2.1).2
    have others : ∀ k ∈ matchHops cfg a.routingTag none, k ≠ i → k ≠ j →
        t.stage cfg dev a k = s.stage cfg dev a k :=
      fun k member ne ne' => (stays k member ne').trans (left k member ne)
    have i_ne : i ≠ j := (after j visited_j).2.symm
    have member_i : i ∈ matchHops cfg a.routingTag none := by simp [split]
    rw [split, hops, last']
    refine inOrder_move (stage_passed passed) ?_ enters ?_ ?_ ?_
    · rw [stays i member_i i_ne, at_head]
    · intro k member
      refine others k (first k member).1 (first k member).2 ?_
      exact (List.nodup_append.mp nodup').2.2 k member j (by simp)
    · intro k member
      have here := after k (by simp [hops, member])
      exact others k here.1 here.2 ((List.nodup_append.mp later).2.2 k member j (by simp))
    · intro k member
      have here := after k (by simp [hops, member])
      refine others k here.1 here.2 ?_
      rintro rfl
      exact (List.nodup_cons.mp (List.nodup_append.mp later).2.1).1 member

/-! ### Accounts of a flow -/

/-- The packets of the flow of `a` that have left `dev`, then those it still holds. -/
def account (cfg : Config n) (s : Switch n) (dev : Fin n) (a : Packet n) : List (Packet n) :=
  ((s.departed dev).map Prod.fst).filter (sameFlow cfg a) ++ s.held cfg dev a

theorem account_accept {s t : Switch n} (T : Tables s) (P : Placed cfg s) {dev idx : Fin n}
    {a p : Packet n} (aligned : HopAligned s dev a.routingTag) (data : ¬p.isFrame)
    (h : s.acceptPacket cfg idx p = .ok t) : t.account cfg dev a = s.account cfg dev a ++
      (if idx = dev ∧ s.accepts cfg idx p = true then [p] else []).filter (sameFlow cfg a) := by
  have T' := acceptPacket_tables T h
  obtain ⟨map, departed, ⟨refused, queues⟩ | ⟨accepted, q, matched, queues⟩⟩ :=
    acceptPacket_accepts data h
  · have shrinks : MapShrinks s t := fun _ _ _ mapped => by rw [map] at mapped; exact mapped
    simp [account, departed, held_shrinks T T' shrinks queues dev a, refused]
  · simp only [account, departed, accepted, and_true, List.append_assoc]
    congr 1
    by_cases joins : idx = dev ∧ sameFlow cfg a p = true
    · obtain ⟨rfl, flow⟩ := joins
      rw [held_accept T T' P aligned flow matched map queues]
      simp [flow]
    · have other : idx = dev → sameFlow cfg a p = false := fun here => by simpa [here] using joins
      rw [held_push_other T T' other map queues]
      split
      · rename_i here
        simp [other here]
      · simp

theorem account_transmit {s t : Switch n} (T : Tables s) (P : Placed cfg s)
    (dropTail : cfg.pifo = false) {dev x : Fin n} {a : Packet n} {pick : Option (ℕ × ℕ)}
    (h : s.dequeueAndTransmit cfg x pick = .ok t) :
    t.account cfg dev a = s.account cfg dev a := by
  have T' := dequeueAndTransmit_tables T h
  rcases dequeueAndTransmit_cases h with rfl | ⟨q, k, p, oq, first, at_k, left⟩
  · rfl
  obtain rfl := first dropTail
  -- the queues and the log after the step, and what the notification may have deallocated
  have after : t.queues = (s.popQueue x q 0 p).queues ∧ MapShrinks (s.popQueue x q 0 p) t ∧
      t.departed = ((s.popQueue x q 0 p).transmitStart x q p).departed := by
    rcases switchNotifyDequeue_cases left with ⟨_, rfl⟩ | ⟨_, _, u, removed, notified⟩
    · exact ⟨rfl, fun _ _ _ mapped => mapped, rfl⟩
    · obtain ⟨_, rfl⟩ := removeFromEgressAdmission_ok removed
      have same := notifyDequeue_buffers notified
      exact ⟨same.queues, fun x d r mapped => notifyDequeue_map notified x d r mapped,
        same.departed⟩
  obtain ⟨queues, shrinks, departed⟩ := after
  obtain ⟨rest, head⟩ : ∃ rest, s.queues x q = p :: rest := by
    cases queue : s.queues x q with
    | nil => simp [queue] at at_k
    | cons b rest =>
      simp only [queue, List.getElem?_cons_zero, Option.some.injEq] at at_k
      exact ⟨rest, by rw [at_k]⟩
  have same : t.held cfg dev a = (s.popQueue x q 0 p).held cfg dev a :=
    held_shrinks (head_tables T head) T' shrinks queues dev a
  rw [account, account, same, departed]
  by_cases flow : x = dev ∧ sameFlow cfg a p = true
  · obtain ⟨rfl, flow⟩ := flow
    obtain ⟨data, _, default⟩ := sameFlow_iff.mp flow
    have at_default := (P x q p (by simp [head]) data).1 oq
    rw [default] at at_default
    subst at_default
    have left : s.held cfg x a =
        p :: (s.popQueue x (matchDefaultQ cfg a.header) 0 p).held cfg x a := by
      unfold held
      rw [← inOrder_leave]
      have tail : (s.popQueue x (matchDefaultQ cfg a.header) 0 p).queues x
        (matchDefaultQ cfg a.header) = rest := by simp [popQueue, head]
      rw [head, tail, List.filter_cons_of_pos flow]
      refine (inOrder_congr fun i _ => stage_congr a fun r _ => ?_).symm
      rw [waiting_pop T head, if_neg]
      intro mapped
      have := (T.range x _ r mapped).1
      omega
    rw [left]
    simp [transmitStart, popQueue, flow]
  · have other : x = dev → sameFlow cfg a p = false := fun here => by simpa [here] using flow
    rw [held_pop_other T head other]
    congr 1
    by_cases here : dev = x
    · subst here
      simp [transmitStart, popQueue, other rfl]
    · simp [transmitStart, popQueue, here]

theorem account_move {s t : Switch n} (T : Tables s) (C : Culprits s) {dev x : Fin n} {a : Packet n}
    {level q : ℕ} {b b' : Bool} (aligned : HopAligned s dev a.routingTag)
    (visited : q ∈ s.priorities x level) (h : hierMove cfg x level (s, b) q = .ok (t, b')) :
    t.account cfg dev a = s.account cfg dev a := by
  have T' := hierMove_tables T h
  rcases hierMove_cases h with rfl | ⟨p, rest, nextQ, u, v, w, head, check, left, removed,
    entered, rfl⟩
  · rfl
  have moved := (hierMove_queues left removed entered).1
  have departed : w.departed = s.departed := (hierMove_queues left removed entered).2
  obtain ⟨_, rfl⟩ := removeFromEgressAdmission_ok removed
  obtain ⟨map, place⟩ := notifyEnqueue_map entered
  have U := notifyDequeue_tables (head_tables T head) left
  have shrinks := notifyDequeue_map left
  have same := (notifyDequeue_buffers left).queues
  have queues : w.queues = (u.pushQueue x p nextQ).queues := by
    rw [moved]
    simp only [pushQueue, same]
  simp only [account]
  rw [show (w.updateEgressAdmission x nextQ p.size).departed = s.departed from departed]
  congr 1
  by_cases flow : x = dev ∧ sameFlow cfg a p = true
  · obtain ⟨rfl, flow⟩ := flow
    exact held_move T C U T' aligned visited head flow check shrinks same place map queues
  · have other : x = dev → sameFlow cfg a p = false := fun here => by simpa [here] using flow
    rw [held_push_other U T' other map queues, held_shrinks (head_tables T head) U shrinks same,
      held_pop_other T head other]

theorem account_signals {s t : Switch n} {tag : CITag} {p : Fin n} (T : Tables s)
    (h : SignalCtls cfg tag p s t) (dev : Fin n) (a : Packet n) :
    t.account cfg dev a = s.account cfg dev a := by
  obtain ⟨queues, departed⟩ := signalCtls_queues T h
  have held : t.held cfg dev a = s.held cfg dev a :=
    held_congr a (by rw [queues]) fun r => by rw [signalCtls_waiting T h dev r]
  rw [account, account, departed, held]

/-! ### Runs -/

/-- The packets `SendToDev` has accepted on each port, after one more event. -/
def logged (cfg : Config n) (s : Switch n) (log : Fin n → List (Packet n)) : Event n → Fin n →
    List (Packet n)
  | .sendToDev idx p _ =>
    if s.accepts cfg idx p then Function.update log idx (log idx ++ [p]) else log
  | _ => log

/-- Runs with the log of accepted packets; every step starts in a state that is `ready`. -/
inductive History (cfg : Config n) (ready : Switch n → Prop) : Switch n →
    (Fin n → List (Packet n)) → Prop
    where
  | initial : History cfg ready {} fun _ => []
  | step {s t : Switch n} {log : Fin n → List (Packet n)} {ev : Event n} : History cfg ready s log →
      ready s → s.step cfg ev = .ok t → History cfg ready t (s.logged cfg log ev)

/-- What one event keeps of a flow on `dev`, besides the coherence of the tables. -/
structure InFlow (cfg : Config n) (dev : Fin n) (a : Packet n) (log : Fin n → List (Packet n))
    (s : Switch n) : Prop where
  tables : Tables s
  culprits : Culprits s
  placed : Placed cfg s
  account : s.account cfg dev a = (log dev).filter (sameFlow cfg a)

theorem inFlow_transmit {s t : Switch n} {dev x : Fin n} {a : Packet n}
    {log : Fin n → List (Packet n)}
    {pick : Option (ℕ × ℕ)} (F : InFlow cfg dev a log s) (dropTail : cfg.pifo = false)
    (h : s.dequeueAndTransmit cfg x pick = .ok t) : InFlow cfg dev a log t where
  tables := dequeueAndTransmit_tables F.tables h
  culprits := dequeueAndTransmit_culprits F.tables F.culprits h
  placed := dequeueAndTransmit_placed F.placed h
  account := (account_transmit F.tables F.placed dropTail h).trans F.account

theorem inFlow_round {s t : Switch n} {dev : Fin n} {a : Packet n} {log : Fin n → List (Packet n)}
    {picks : Fin n → Option (ℕ × ℕ)} (F : InFlow cfg dev a log s) (dropTail : cfg.pifo = false)
    (aligned : HopAligned s dev a.routingTag) (h : s.doHierQRR cfg picks = .ok t) :
    InFlow cfg dev a log t := by
  refine (doHierQRR_preserves (I := fun u => InFlow cfg dev a log u ∧ HopAligned u dev a.routingTag)
    ?_ ?_ ⟨F, aligned⟩ h).1
  · rintro u v x pick ⟨F, aligned⟩ call
    refine ⟨inFlow_transmit F dropTail call, ?_⟩
    exact hopAligned_narrows aligned (dequeueAndTransmit_narrows call)
  · rintro u v x level q b b' ⟨F, aligned⟩ visited call
    have high := (F.tables.levels x level q visited).1
    refine ⟨⟨hierMove_tables F.tables call, hierMove_culprits F.tables F.culprits call,
      hierMove_placed F.tables F.placed high call,
      (account_move F.tables F.culprits aligned visited call).trans F.account⟩, ?_⟩
    exact hopAligned_narrows aligned (hierMove_narrows call)

theorem inFlow_signals {s t : Switch n} {dev p : Fin n} {a : Packet n}
    {log : Fin n → List (Packet n)}
    {tag : CITag} (F : InFlow cfg dev a log s) (h : SignalCtls cfg tag p s t) :
    InFlow cfg dev a log t where
  tables := signalCtls_tables F.tables h
  culprits := signalCtls_culprits F.tables F.culprits h
  placed := by
    have queues := (signalCtls_queues F.tables h).1
    exact placed_stay F.placed fun x y b member => by rw [queues] at member; exact member
  account := (account_signals F.tables h dev a).trans F.account

theorem inFlow_frame {s : Switch n} {dev x : Fin n} {a p : Packet n} {log : Fin n → List (Packet n)}
    (F : InFlow cfg dev a log s) (frame : p.isFrame) :
    InFlow cfg dev a log (s.switchSend cfg x 0 p) := by
  have other : sameFlow cfg a p = false := by simp [sameFlow, frame]
  have T' := frame_switchSend cfg F.tables x p
  rcases switchSend_cases cfg s x 0 p with same | pushed
  · rw [same]
    exact F
  · rw [pushed] at T' ⊢
    refine ⟨T', culprits_push F.culprits (by simp [queueNum]),
      placed_push F.placed fun data => absurd frame data, ?_⟩
    have same : (s.pushQueue x p 0).held cfg dev a = s.held cfg dev a :=
      held_push_other F.tables T' (fun _ => other) rfl rfl
    rw [← F.account, account, account, same]
    rfl

theorem inFlow_step {s t : Switch n} {dev : Fin n} {a : Packet n} {log : Fin n → List (Packet n)}
    {ev : Event n} (F : InFlow cfg dev a log s) (dropTail : cfg.pifo = false)
    (aligned : HopAligned s dev a.routingTag) (h : s.step cfg ev = .ok t) :
    InFlow cfg dev a (s.logged cfg log ev) t := by
  cases ev with
  | sendToDev idx p pick =>
    simp only [step, sendToDev] at h
    split at h
    · rename_i frame
      cases h
      have frame : p.isFrame := by simpa [Packet.isFrame] using frame
      have refused : s.accepts cfg idx p = false := by
        unfold accepts
        split
        · rfl
        · simp [frame]
      simpa [logged, refused] using F
    · rename_i data
      have data : ¬p.isFrame := by simpa [Packet.isFrame] using data
      obtain ⟨u, accepted, h⟩ := bind_ok h
      obtain ⟨v, sent, h⟩ := bind_ok h
      have stored : InFlow cfg dev a (s.logged cfg log (.sendToDev idx p pick)) u := by
        refine ⟨acceptPacket_tables F.tables accepted,
          acceptPacket_culprits F.tables F.culprits accepted,
          acceptPacket_placed F.tables F.placed accepted, ?_⟩
        rw [account_accept F.tables F.placed aligned data accepted, F.account, ← List.filter_append]
        congr 1
        simp only [logged]
        by_cases joins : s.accepts cfg idx p = true
        · by_cases here : idx = dev
          · subst here
            simp [joins]
          · have other : dev ≠ idx := fun h => here h.symm
            simp [joins, here, other]
        · simp [joins]
      unfold doStatistics at h
      split at h
      · cases h
        exact inFlow_transmit stored dropTail sent
      · cases h
  | doHierQRR picks => exact inFlow_round F dropTail aligned h
  | receiveCI tag ingress pick =>
    obtain ⟨u, pick', steps, sent⟩ := receiveCI_ctl h
    exact inFlow_transmit (inFlow_signals F steps) dropTail sent
  | dequeueAndTransmit x pick => exact inFlow_transmit F dropTail h
  | sendFrame x p pick =>
    simp only [step] at h
    split at h
    · rename_i frame
      exact inFlow_transmit (inFlow_frame F frame) dropTail h
    · cases h
      exact F

theorem history_inFlow (dropTail : cfg.pifo = false) {dev : Fin n} {a : Packet n} {s : Switch n}
    {log : Fin n → List (Packet n)}
    (h : History cfg (fun u => HopAligned u dev a.routingTag) s log) : InFlow cfg dev a log s := by
  induction h with
  | initial =>
    refine ⟨initial_tables, ?_, ?_, ?_⟩
    · intro _ _ _ _ member
      cases member
    · intro _ _ _ member
      cases member
    have empty : ∀ i ∈ matchHops cfg a.routingTag none, ({} : Switch n).stage cfg dev a i = [] := by
      intro i _
      unfold stage
      split <;> rfl
    simp [account, held, inOrder_empty empty]
  | step _ ready call ih => exact inFlow_step ih dropTail ready call

/-- FIFO order of a flow: what has left `dev` is the beginning of what `SendToDev` has accepted on
it, through any run in which the entries that match the flow's route have the distance of their root
as hop. -/
theorem flow_fifo (dropTail : cfg.pifo = false) {dev : Fin n} {a : Packet n} {s : Switch n}
    {log : Fin n → List (Packet n)}
    (h : History cfg (fun u => HopAligned u dev a.routingTag) s log) :
    ((s.departed dev).map Prod.fst).filter (sameFlow cfg a) <+: (log dev).filter (sameFlow cfg a) :=
  ⟨s.held cfg dev a, (history_inFlow dropTail h).account⟩

instance (s : Switch n) (dev : Fin n) (tag : RoutingTag) : Decidable (HopAligned s dev tag) :=
  decidable_of_iff (∀ i < tag.activeHop, tag.currHop < i →
    ∀ r ∈ tag.routing[i]?, ∀ e ∈ s.getEntry r,
    e.oportCiq dev ≠ none → e.hop = i - tag.currHop) <| by
    constructor
    · intro all i r e after at_i found ciq
      obtain ⟨lt, _⟩ := List.getElem?_eq_some_iff.mp at_i
      exact all i lt after r at_i e found ciq
    · intro aligned i _ after r at_i e found ciq
      exact aligned i r e after at_i found ciq

/-- The run of a list of events with its log, while the states before them are `ready`. -/
def logRun (cfg : Config n) (ready : Switch n → Prop) [DecidablePred ready] :
    Switch n × (Fin n → List (Packet n)) → List (Event n) →
    Option (Switch n × (Fin n → List (Packet n)))
  | at_end, [] => some at_end
  | (s, log), ev :: rest =>
    match s.step cfg ev with
    | .error _ => none
    | .ok t => if ready s then logRun cfg ready (t, s.logged cfg log ev) rest else none

theorem history_logRun {ready : Switch n → Prop} [DecidablePred ready] {evs : List (Event n)}
    {start final : Switch n × (Fin n → List (Packet n))} (h : History cfg ready start.1 start.2)
    (ends : logRun cfg ready start evs = some final) : History cfg ready final.1 final.2 := by
  induction evs generalizing start with
  | nil =>
    cases ends
    exact h
  | cons ev rest ih =>
    obtain ⟨s, log⟩ := start
    unfold logRun at ends
    split at ends
    · cases ends
    rename_i t call
    split at ends
    · rename_i before
      exact ih (.step h before call) ends
    · cases ends

/-- A packet waits in a CIQ, the next one of its flow in another, and both leave after the roots
have been resumed. -/
def overtakingRun : List (Event 2) :=
  [.receiveCI ⟨.pause, ⟨7, 0⟩, 1, ⟨0, 0⟩⟩ 0 none,
   .sendToDev 0 (dataPacket 0 (1 : Fin 2) [⟨1, 0⟩, ⟨7, 0⟩, ⟨8, 0⟩]) none,
   .receiveCI ⟨.pause, ⟨8, 0⟩, 2, ⟨0, 0⟩⟩ 0 none,
   .sendToDev 0 (dataPacket 1 1 [⟨1, 0⟩, ⟨7, 0⟩, ⟨8, 0⟩]) none,
   .receiveCI ⟨.resume, ⟨8, 0⟩, 0, ⟨0, 0⟩⟩ 0 none,
   .receiveCI ⟨.resume, ⟨7, 0⟩, 0, ⟨0, 0⟩⟩ 0 none,
   .doHierQRR (fun _ => none),
   .doHierQRR (fun _ => some (1, 0)),
   .dequeueAndTransmit 0 (some (1, 0))]

theorem flow_fifo_overtaking : ∃ s log, History (smallConfig 2)
    (fun u => HopAligned u 0 (dataPacket 0 (1 : Fin 2) [⟨1, 0⟩, ⟨7, 0⟩, ⟨8, 0⟩]).routingTag) s log ∧
    (s.departed 0).length = 2 ∧
    ((s.departed 0).map Prod.fst).filter
    (sameFlow (smallConfig 2) (dataPacket 0 (1 : Fin 2) [⟨1, 0⟩, ⟨7, 0⟩, ⟨8, 0⟩])) <+:
      (log 0).filter
      (sameFlow (smallConfig 2) (dataPacket 0 (1 : Fin 2) [⟨1, 0⟩, ⟨7, 0⟩, ⟨8, 0⟩])) := by
  have ends : ∃ final, logRun (smallConfig 2)
      (fun u => HopAligned u 0 (dataPacket 0 (1 : Fin 2) [⟨1, 0⟩, ⟨7, 0⟩, ⟨8, 0⟩]).routingTag)
        ({}, fun _ => [])
      overtakingRun = some final ∧ (final.1.departed 0).length = 2 := by
    refine ⟨_, Option.get_mem (?_ : Option.isSome _), ?_⟩
    · decide
    · decide
  obtain ⟨⟨s, log⟩, ends, both⟩ := ends
  have h := history_logRun .initial ends
  exact ⟨s, log, h, both, flow_fifo rfl h⟩

end Switch

end Pyrrha

import Pyrrha.Lib.Search
import Pyrrha.Route.Data

/-!
Route computation of `third.cc`: a breadth-first search from every host over the links that are up
gives each node its next hops, and is made again when a link is taken down.
-/

namespace Pyrrha

namespace Route

open Lib

/-- `Node::GetNodeType`: a host (0) or a switch (1). -/
inductive NodeType where
  | host | switch
  deriving DecidableEq, Repr

structure Interface where
  idx : ℕ
  up : Bool
  delay : UInt64
  bw : UInt64
  deriving DecidableEq

variable {α : Type*}

/-- `Up nbr2if v w`: there is a link between `v` and `w` and it is up at `v`. -/
def Up (nbr2if : α → List (α × Interface)) (v w : α) : Prop := ∃ i, (w, i) ∈ nbr2if v ∧ i.up = true

/-- The nodes and links. The neighbours of a node are in the order of the map, by address. -/
structure Topology (α : Type*) where
  nodes : List α
  nodeType : α → NodeType
  getId : α → ℕ
  address : α → UInt32
  nbr2if : α → List (α × Interface)
  nodes_nodup : nodes.Nodup
  keys_nodup : ∀ v, ((nbr2if v).map Prod.fst).Nodup
  closed : ∀ v, ∀ e ∈ nbr2if v, e.1 ∈ nodes
  symmetric : ∀ v w, Up nbr2if v w → Up nbr2if w v

/-- What is computed for every node and host. -/
structure Routes (α : Type*) where
  nextHop : α → α → List α
  pairDelay : α → α → Option UInt64
  pairTxDelay : α → α → Option UInt64
  pairBw : α → α → Option UInt64

def Routes.empty : Routes α := ⟨fun _ _ => [], fun _ _ => none, fun _ _ => none, fun _ _ => none⟩

/-- The variables of `CalculateRoute`, with the next hops towards its host. -/
structure Found (α : Type*) where
  q : List α
  dis : α → Option ℕ
  delay : α → Option UInt64
  txDelay : α → Option UInt64
  bw : α → Option UInt64
  nextHop : α → List α

variable [DecidableEq α]

/-! ### The code -/

/-- `nbr2if[v][w]`: reading an entry that is not there leaves one whose link is down. -/
def interfaceOf (nbr2if : α → List (α × Interface)) (v w : α) : Interface :=
  ((nbr2if v).find? fun it => it.1 = w).elim ⟨0, false, 0, 0⟩ Prod.snd

/-- One entry of `nbr2if[now]` in `CalculateRoute`. -/
def scanLink (nodeType : α → NodeType) (packetPayload : UInt64) (now : α) (d : ℕ) (f : Found α)
    (it : α × Interface) : Found α :=
  if !it.2.up then f
  else
    let next := it.1
    let f := if f.dis next = none then
      { f with
        dis := Function.update f.dis next (some (d + 1))
        delay := Function.update f.delay next (some ((f.delay now).getD 0 + it.2.delay))
        txDelay := Function.update f.txDelay next
          (some ((f.txDelay now).getD 0 + packetPayload * 1000000000 * 8 / it.2.bw))
        bw := Function.update f.bw next (some (min ((f.bw now).getD 0) it.2.bw))
        q := if nodeType next = .switch then f.q ++ [next] else f.q }
      else f
    if f.dis next = some (d +
      1) then { f with nextHop := Function.update f.nextHop next (f.nextHop next ++ [now]) }
    else f

/-- The loop over `q` from index `i` on; `none` if it has not ended after as many turns as there is
fuel. -/
def searchFrom (net : Topology α) (packetPayload : UInt64) : ℕ → ℕ → Found α → Option (Found α)
  | fuel, i, f =>
    match f.q[i]? with
    | none => some f
    | some now =>
      match fuel with
      | 0 => none
      | fuel + 1 =>
        let d := (f.dis now).getD 0
        searchFrom net packetPayload fuel (i + 1)
          ((net.nbr2if now).foldl (scanLink net.nodeType packetPayload now d) f)

/-- `init BFS`. -/
def Found.start (host : α) (nextHop : α → List α) : Found α where
  q := [host]
  dis := Function.update (fun _ => none) host (some 0)
  delay := Function.update (fun _ => none) host (some 0)
  txDelay := Function.update (fun _ => none) host (some 0)
  bw := Function.update (fun _ => none) host (some 0xffffffffffffffff)
  nextHop := nextHop

/-- The maps of the host after the search. -/
def Routes.record (r : Routes α) (host : α) (f : Found α) : Routes α where
  nextHop v := Function.update (r.nextHop v) host (f.nextHop v)
  pairDelay v := Function.update (r.pairDelay v) host ((f.delay v).or (r.pairDelay v host))
  pairTxDelay v := Function.update (r.pairTxDelay v) host ((f.txDelay v).or (r.pairTxDelay v host))
  pairBw v := Function.update (r.pairBw v) host ((f.bw v).or (r.pairBw v host))

def calculateRoute (net : Topology α) (packetPayload : UInt64) (r : Routes α) (host : α) : Option (Routes α) := do
  let f ← searchFrom net packetPayload net.nodes.length 0
    (Found.start host fun next => r.nextHop next host)
  some (r.record host f)

def calculateRoutes (net : Topology α) (packetPayload : UInt64) (r : Routes α) :
    Option (Routes α) :=
  net.nodes.foldlM (fun r node =>
    if net.nodeType node = .host then calculateRoute net packetPayload r node else some r) r

def setRoutingEntries (net : Topology α) (r : Routes α) (t : Tables) : Tables :=
  net.nodes.foldl
    (fun t node => net.nodes.foldl (fun t dst => (r.nextHop node dst).foldl (fun t next =>
    t.addTableEntry (net.getId node) (net.address dst) (interfaceOf net.nbr2if node next).idx) t) t) t

/-- `nbr2if[v][w].up = false`, for an entry that is there. -/
def setDown (nbr2if : α → List (α × Interface)) (v w : α) : α → List (α × Interface) :=
  Function.update nbr2if v ((nbr2if v).map fun it =>
    if it.1 = w then (it.1, { it.2 with up := false }) else it)

theorem setDown_keys (nbr2if : α → List (α × Interface)) (v w x : α) :
    (setDown nbr2if v w x).map Prod.fst = (nbr2if x).map Prod.fst := by
  by_cases same : x = v
  · subst same
    simp only [setDown, Function.update_self, List.map_map]
    refine List.map_congr_left fun it _ => ?_
    simp only [Function.comp_apply]
    split <;> rfl
  · simp [setDown, same]

theorem up_setDown {nbr2if : α → List (α × Interface)} {v w x y : α} :
    Up (setDown nbr2if v w) x y ↔ Up nbr2if x y ∧ ¬(x = v ∧ y = w) := by
  by_cases same : x = v
  · subst same
    simp only [Up, setDown, Function.update_self, List.mem_map, true_and]
    constructor
    · rintro ⟨i, ⟨it, mem, eq⟩, up⟩
      split at eq
      · cases eq
        cases up
      · subst eq
        exact ⟨⟨i, mem, up⟩, by assumption⟩
    · rintro ⟨⟨i, mem, up⟩, other⟩
      exact ⟨i, ⟨(y, i), mem, if_neg other⟩, up⟩
  · simp [Up, setDown, same]

/-- Both ends of a link that is up are set down. -/
def Topology.takeDown (net : Topology α) (a b : α) : Topology α :=
  { net with
    nbr2if := setDown (setDown net.nbr2if b a) a b
    keys_nodup := fun v => by
      rw [setDown_keys, setDown_keys]
      exact net.keys_nodup v
    closed := fun v e mem => by
      have key : e.1 ∈ (setDown (setDown net.nbr2if b a) a b v).map Prod.fst :=
        List.mem_map_of_mem mem
      rw [setDown_keys, setDown_keys, List.mem_map] at key
      obtain ⟨old, there, same⟩ := key
      exact same ▸ net.closed v old there
    symmetric := fun v w up => by
      simp only [up_setDown] at up ⊢
      obtain ⟨⟨up, notBack⟩, notThere⟩ := up
      exact ⟨⟨net.symmetric v w up, fun same => notThere ⟨same.2, same.1⟩⟩,
        fun same => notBack ⟨same.2, same.1⟩⟩ }

/-- What the program keeps about routing. -/
structure Control (α : Type*) where
  net : Topology α
  routes : Routes α
  tables : Tables

/-- The routes the program starts with. -/
def setUp (packetPayload : UInt64) (net : Topology α) : Option (Control α) := do
  let routes ← calculateRoutes net packetPayload .empty
  some ⟨net, routes, setRoutingEntries net routes .empty⟩

/-- `TakeDownLink`, without what it does to the devices and the queue pairs. -/
def takeDownLink (packetPayload : UInt64) (s : Control α) (ab : α × α) : Option (Control α) := do
  if !(interfaceOf s.net.nbr2if ab.1 ab.2).up then some s
  else
    let net := s.net.takeDown ab.1 ab.2
    let routes ← calculateRoutes net packetPayload { s.routes with nextHop := fun _ _ => [] }
    let tables := net.nodes.foldl (fun t node => t.clearTable (net.getId node)) s.tables
    some ⟨net, routes, setRoutingEntries net routes tables⟩

/-! ### The search is a breadth-first search -/

variable {net : Topology α} {packetPayload : UInt64} {host : α}

def Topology.neighbours (net : Topology α) (v : α) : List α :=
  ((net.nbr2if v).filter fun it => it.2.up).map Prod.fst

def isSwitch (net : Topology α) (v : α) : Bool := decide (net.nodeType v = .switch)

omit [DecidableEq α] in
theorem mem_neighbours {v w : α} : w ∈ net.neighbours v ↔ Up net.nbr2if v w := by
  simp [Topology.neighbours, Up]

omit [DecidableEq α] in
theorem neighbours_nodup (v : α) : (net.neighbours v).Nodup :=
  (net.keys_nodup v).sublist (List.filter_sublist.map Prod.fst)

omit [DecidableEq α] in
theorem neighbours_mem (v x : α) (next : x ∈ net.neighbours v) : x ∈ net.nodes := by
  obtain ⟨i, mem, _⟩ := mem_neighbours.mp next
  exact net.closed v (x, i) mem

/-- The search at index `i` of its queue. -/
def Found.search (f : Found α) (i : ℕ) : Search α := ⟨f.dis, f.nextHop, f.q.drop i⟩

theorem scanLink_search {now : α} {d i : ℕ} {f : Found α} (le : i ≤ f.q.length)
    (it : α × Interface) : (scanLink net.nodeType packetPayload now d f it).search i =
        (if it.2.up then Search.visit (isSwitch net) now d (f.search i) it.1 else f.search i) ∧
      i ≤ (scanLink net.nodeType packetPayload now d f it).q.length := by
  unfold scanLink
  by_cases up : it.2.up = true
  · by_cases new : f.dis it.1 = none
    · by_cases wide : net.nodeType it.1 = .switch
      · simp [up, new, wide, Found.search, Search.visit, isSwitch, List.drop_append_of_le_length le]
        omega
      · simp [up, new, wide, Found.search, Search.visit, isSwitch, le]
    · by_cases far : f.dis it.1 =
        some (d + 1) <;> simp [up, new, far, Found.search, Search.visit, le]
  · simp [up, le]

theorem scanLinks_search {now : α} {d i : ℕ} {f : Found α} (le : i ≤ f.q.length)
    (l : List (α × Interface)) : (l.foldl (scanLink net.nodeType packetPayload now d) f).search i =
        ((l.filter fun it => it.2.up).map Prod.fst).foldl (Search.visit (isSwitch net) now d)
        (f.search i) ∧
      i ≤ (l.foldl (scanLink net.nodeType packetPayload now d) f).q.length := by
  induction l generalizing f with
  | nil => exact ⟨rfl, le⟩
  | cons it l ih =>
    obtain ⟨same, le⟩ := @scanLink_search _ _ net packetPayload now d i f le it
    rw [List.foldl_cons]
    refine ⟨?_, (ih le).2⟩
    rw [(ih le).1, same]
    by_cases up : it.2.up = true <;> simp [up]

/-- The loop ends with the next hops a search over the links that are up finds. -/
theorem searchFrom_run {fuel i : ℕ} {f : Found α} (le : i ≤ f.q.length)
    (finished : (Search.run net.neighbours (isSwitch net) fuel (f.search i)).todo = []) :
    ∃ g, searchFrom net packetPayload fuel i f = some g ∧
      (Search.run net.neighbours (isSwitch net) fuel (f.search i)).preds = g.nextHop := by
  induction fuel generalizing i f with
  | zero =>
    have past : f.q.length ≤ i := by simpa [Search.run, Found.search] using finished
    exact ⟨f, by simp [searchFrom, past], rfl⟩
  | succ fuel ih =>
    unfold searchFrom
    unfold Search.run at finished ⊢
    cases next : f.q[i]? with
    | none =>
      have past : f.q.length ≤ i := by simpa using next
      have none_left : (f.search i).todo = [] := by simpa [Found.search] using past
      simp only [none_left]
      exact ⟨f, rfl, rfl⟩
    | some now =>
      obtain ⟨lt, isNow⟩ := List.getElem?_eq_some_iff.mp next
      have todo : (f.search i).todo = now :: f.q.drop (i + 1) := by
        rw [← isNow]
        exact List.drop_eq_getElem_cons lt
      have expanded : Search.expandNode net.neighbours (isSwitch net) now
          { f.search i with todo := f.q.drop (i + 1) } =
          ((net.nbr2if now).foldl (scanLink net.nodeType packetPayload now ((f.dis now).getD 0))
            f).search (i + 1) :=
        (scanLinks_search (show i + 1 ≤ f.q.length by omega) _).1.symm
      rw [todo] at finished ⊢
      dsimp only at finished ⊢
      rw [expanded] at finished ⊢
      exact ih (scanLinks_search (show i + 1 ≤ f.q.length by omega) _).2 finished

/-- What `CalculateRoute` computes: the predecessors of a search from `host`, which starts where it
has no next hops yet. -/
theorem calculateRoute_shortest {r : Routes α} (member : host ∈ net.nodes)
    (fresh : ∀ v, r.nextHop v host = []) :
    ∃ s, Search.Shortest net.neighbours (isSwitch net) host s ∧ ∃ r',
      calculateRoute net packetPayload r host = some r' ∧
      ∀ v h, r'.nextHop v h = if h = host then s.preds v else r.nextHop v h := by
  obtain ⟨shortest, finished⟩ : Search.Shortest net.neighbours (isSwitch net) host
      (Search.run net.neighbours (isSwitch net) net.nodes.length (Search.start host)) ∧ _ :=
    Search.shortest_run neighbours_nodup member neighbours_mem
  have started : (Found.start host fun next => r.nextHop next host).search 0 =
      Search.start host := by
    have labels : Function.update (fun _ => none) host (some 0) = fun x => if x = host then some 0
        else none := by
      funext x
      by_cases same : x = host <;> simp [same]
    simp [Found.search, Search.start, Found.start, fresh, labels]
  rw [← started] at finished
  obtain ⟨g, found, preds⟩ :=
    @searchFrom_run _ _ net packetPayload net.nodes.length 0 _ (Nat.zero_le _) finished
  refine ⟨_, shortest, r.record host g, by simp [calculateRoute, found], fun v h => ?_⟩
  rw [← started, preds]
  by_cases same : h = host <;> simp [Routes.record, same]

/-- Every host of the list is searched from once, and no search touches the next hops to another. -/
theorem routes_shortest_of_fresh {l : List α} (nodup : l.Nodup) (members : ∀ h ∈ l, h ∈ net.nodes)
    {r : Routes α} (fresh : ∀ h ∈ l, ∀ v, r.nextHop v h = []) :
    ∃ r', l.foldlM (fun r node =>
        if net.nodeType node = .host then calculateRoute net packetPayload r node else some r) r =
          some r' ∧
      (∀ h ∈ l, net.nodeType h = .host →
        ∃ s, Search.Shortest net.neighbours (isSwitch net) h s ∧ ∀ v, r'.nextHop v h = s.preds v) ∧
      ∀ h, h ∉ l ∨ net.nodeType h ≠ .host → ∀ v, r'.nextHop v h = r.nextHop v h := by
  induction l generalizing r with
  | nil => exact ⟨r, rfl, fun h mem => absurd mem (by simp), fun h _ v => rfl⟩
  | cons node l ih =>
    obtain ⟨absent, nodup⟩ := List.nodup_cons.mp nodup
    have members' : ∀ h ∈ l, h ∈ net.nodes := fun h mem => members h (by simp [mem])
    rw [List.foldlM_cons]
    by_cases host : net.nodeType node = .host
    · obtain ⟨s, shortest, r₁, first, hops⟩ := @calculateRoute_shortest _ _ net packetPayload node r
        (members node (by simp)) (fresh node (by simp))
      have others : ∀ h, h ≠ node → ∀ v, r₁.nextHop v h = r.nextHop v h := fun h other v => by
        rw [hops, if_neg other]
      have apart : ∀ h ∈ l, h ≠ node := fun h mem same => absent (same ▸ mem)
      obtain ⟨r', rest, found, kept⟩ := ih nodup members' fun h mem v => by
        rw [others h (apart h mem), fresh h (by simp [mem])]
      refine ⟨r', by simp [host, first, rest], fun h mem isHost => ?_, fun h away v => ?_⟩
      · rcases List.mem_cons.mp mem with rfl | mem
        · refine ⟨s, shortest, fun v => ?_⟩
          rw [kept h (.inl absent), hops, if_pos rfl]
        · exact found h mem isHost
      · have away' : h ∉ l ∨ net.nodeType h ≠ .host :=
          away.imp_left fun out mem => out (by simp [mem])
        have other : h ≠ node := by
          rintro rfl
          exact away.elim (fun out => out (by simp)) fun switch => switch host
        rw [kept h away', others h other]
    · obtain ⟨r', rest, found, kept⟩ := ih nodup members' fun h mem => fresh h (by simp [mem])
      refine ⟨r', by simp [host, rest], fun h mem isHost => ?_, fun h away v => kept h ?_ v⟩
      · rcases List.mem_cons.mp mem with rfl | mem
        · exact absurd isHost host
        · exact found h mem isHost
      · exact away.imp_left fun out mem => out (by simp [mem])

end Route

end Pyrrha

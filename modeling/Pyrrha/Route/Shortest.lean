import Pyrrha.Route.NextHop

/-!
What the computed next hops are: those on the shortest paths through switches, before and after
links are taken down.
-/

namespace Pyrrha

namespace Route

open Lib

variable {α : Type*} {net : Topology α}

/-- A path from `v` to `h` over links that are up, whose interior nodes are all switches. -/
structure IsPath (net : Topology α) (v : α) (interior : List α) (h : α) : Prop where
  links : (v :: (interior ++ [h])).IsChain (Up net.nbr2if)
  switches : ∀ u ∈ interior, net.nodeType u = .switch

def IsShortest (net : Topology α) (v : α) (interior : List α) (h : α) : Prop :=
  IsPath net v interior h ∧ ∀ other, IsPath net v other h → interior.length ≤ other.length

/-- The number of links on a shortest path. -/
def Distance (net : Topology α) (h v : α) (n : ℕ) : Prop :=
  v = h ∧ n = 0 ∨ v ≠ h ∧ ∃ interior, IsShortest net v interior h ∧ n = interior.length + 1

/-- The nodes a packet is at, when `choose k u` is the next hop it takes from `u` as its hop `k`. -/
def forward (choose : ℕ → α → α) (v : α) : ℕ → α
  | 0 => v
  | k + 1 => choose k (forward choose v k)

/-- A choice among the next hops wherever there are any. -/
def Chooses (r : Routes α) (h : α) (choose : ℕ → α → α) : Prop :=
  ∀ k u, u ≠ h → r.nextHop u h ≠ [] → choose k u ∈ r.nextHop u h

/-- The next hops towards every host are those on the shortest paths, and lead to it. -/
structure Exact (net : Topology α) (r : Routes α) : Prop where
  mem : ∀ h ∈ net.nodes, net.nodeType h = .host → ∀ v, v ≠ h → ∀ w, w ∈ r.nextHop v h ↔
    Up net.nbr2if v w ∧ ∃ interior, IsShortest net v interior h ∧ w ∈ interior ++ [h]
  nodup : ∀ h ∈ net.nodes, net.nodeType h = .host → ∀ v, (r.nextHop v h).Nodup
  empty : ∀ h ∈ net.nodes, net.nodeType h = .host → ∀ v, v ≠ h →
    (r.nextHop v h = [] ↔ ¬∃ interior, IsPath net v interior h)
  forwards : ∀ h ∈ net.nodes, net.nodeType h = .host → ∀ choose, Chooses r h choose →
    ∀ v n, Distance net h v n →
      (∀ k ≤ n, Distance net h (forward choose v k) (n - k)) ∧ forward choose v n = h ∧
        ∀ j k, j < k → k ≤ n → forward choose v j ≠ forward choose v k

/-! ### Paths and the trails of the search -/

theorem isPath_nil {v h : α} : IsPath net v [] h ↔ Up net.nbr2if v h := by
  constructor
  · rintro ⟨links, _⟩
    simpa using links
  · intro up
    exact ⟨by simpa using up, by simp⟩

theorem isPath_cons {v w h : α} {interior : List α} :
    IsPath net v (w :: interior) h ↔ Up net.nbr2if v w ∧ net.nodeType w = .switch ∧
    IsPath net w interior h := by
  constructor
  · rintro ⟨links, switches⟩
    rw [List.cons_append, List.isChain_cons_cons] at links
    exact ⟨links.1, switches w (by simp), links.2, fun u mem => switches u (by simp [mem])⟩
  · rintro ⟨up, switch, links, switches⟩
    refine ⟨?_, fun u mem => ?_⟩
    · rw [List.cons_append, List.isChain_cons_cons]
      exact ⟨up, links⟩
    · rcases List.mem_cons.mp mem with rfl | mem
      · exact switch
      · exact switches u mem

theorem IsPath.drop {v w h : α} {before after : List α}
    (path : IsPath net v (before ++ w :: after) h) : IsPath net w after h := by
  induction before generalizing v with
  | nil => exact (isPath_cons.mp path).2.2
  | cons x before ih => exact ih (isPath_cons.mp path).2.2

theorem trail_path {h v : α} {n : ℕ} (host : net.nodeType h = .host)
    (trail : Trail net.neighbours (isSwitch net) h n v) :
    v = h ∧ n = 0 ∨ ∃ interior, IsPath net v interior h ∧ n = interior.length + 1 := by
  induction trail with
  | root => exact .inl ⟨rfl, rfl⟩
  | first next => exact .inr ⟨[], isPath_nil.mpr (net.symmetric _ _ (mem_neighbours.mp next)), rfl⟩
  | @step n w x trail wide next ih =>
    have switch : net.nodeType w = .switch := by simpa [isSwitch] using wide
    have back := net.symmetric _ _ (mem_neighbours.mp next)
    rcases ih with ⟨rfl, _⟩ | ⟨interior, path, rfl⟩
    · rw [host] at switch
      cases switch
    · exact .inr ⟨w :: interior, isPath_cons.mpr ⟨back, switch, path⟩, rfl⟩

theorem path_trail {h v : α} {interior : List α} (path : IsPath net v interior h) :
    Trail net.neighbours (isSwitch net) h (interior.length + 1) v := by
  induction interior generalizing v with
  | nil => exact .first (mem_neighbours.mpr (net.symmetric _ _ (isPath_nil.mp path)))
  | cons w interior ih =>
    obtain ⟨up, switch, rest⟩ := isPath_cons.mp path
    exact .step (ih rest) (by simp [isSwitch, switch]) (mem_neighbours.mpr (net.symmetric _ _ up))

/-! ### The labels are the distances -/

variable {h : α} {s : Search α}

theorem label_distance (host : net.nodeType h = .host)
    (shortest : Search.Shortest net.neighbours (isSwitch net) h s) (v : α) (n : ℕ) :
    s.label v = some n ↔ Distance net h v n := by
  rw [shortest.label]
  constructor
  · rintro ⟨trail, least⟩
    rcases trail_path host trail with ⟨rfl, rfl⟩ | ⟨interior, path, rfl⟩
    · exact .inl ⟨rfl, rfl⟩
    · refine .inr ⟨?_, interior, ⟨path, fun other another => ?_⟩, rfl⟩
      · rintro rfl
        have := least 0 .root
        omega
      · have := least _ (path_trail another)
        omega
  · rintro (⟨rfl, rfl⟩ | ⟨away, interior, ⟨path, least⟩, rfl⟩)
    · exact ⟨.root, fun m _ => Nat.zero_le m⟩
    · refine ⟨path_trail path, fun m trail => ?_⟩
      rcases trail_path host trail with ⟨same, _⟩ | ⟨other, another, rfl⟩
      · exact absurd same away
      · have := least other another
        omega

theorem distance_unique {v : α} {m n : ℕ} (left : Distance net h v m) (right : Distance net h v n) :
    m = n := by
  rcases left with ⟨rfl, rfl⟩ | ⟨away, p, ⟨path, least⟩, rfl⟩ <;>
    rcases right with ⟨same, rfl⟩ | ⟨away', q, ⟨path', least'⟩, rfl⟩
  · rfl
  · exact absurd rfl away'
  · exact absurd same away
  · have := least q path'
    have := least' p path
    omega

theorem exists_shortest {v : α} {interior : List α} (path : IsPath net v interior h) :
    ∃ p, IsShortest net v p h ∧ p.length ≤ interior.length := by
  classical
  have some_length : ∃ n, ∃ p, IsPath net v p h ∧ p.length = n := ⟨_, interior, path, rfl⟩
  obtain ⟨p, another, same⟩ := Nat.find_spec some_length
  refine ⟨p, ⟨another, fun other there => ?_⟩, ?_⟩
  · rw [same]
    exact Nat.find_min' some_length ⟨other, there, rfl⟩
  · rw [same]
    exact Nat.find_min' some_length ⟨interior, path, rfl⟩

/-- A node one step nearer is next on a shortest path, and the other way round. -/
theorem nearer_iff (host : net.nodeType h = .host) {v w : α} (away : v ≠ h) :
    ((w = h ∨ net.nodeType w = .switch) ∧ Up net.nbr2if v w ∧ ∃ n, Distance net h w n ∧
      Distance net h v (n + 1)) ↔
      Up net.nbr2if v w ∧ ∃ interior, IsShortest net v interior h ∧ w ∈ interior ++ [h] := by
  constructor
  · rintro ⟨wide, up, n, here, further⟩
    refine ⟨up, ?_⟩
    obtain ⟨same, _⟩ | ⟨_, p, least, length⟩ := further
    · exact absurd same away
    · rcases here with ⟨rfl, rfl⟩ | ⟨other, q, short, rfl⟩
      · exact ⟨p, least, by simp⟩
      · have switch := wide.resolve_left other
        refine ⟨w :: q, ⟨isPath_cons.mpr ⟨up, switch, short.1⟩, fun another there => ?_⟩, by simp⟩
        have := least.2 another there
        simp only [List.length_cons]
        omega
  · rintro ⟨up, p, least, mem⟩
    have further : Distance net h v (p.length + 1) := .inr ⟨away, p, least, rfl⟩
    rcases List.mem_append.mp mem with inner | last
    · have switch := least.1.switches w inner
      have other : w ≠ h := by
        rintro rfl
        rw [host] at switch
        cases switch
      -- the rest of the path is a path from `w`, and a shortest path from `w` gives one from `v`
      obtain ⟨before, after, rfl⟩ := List.append_of_mem inner
      obtain ⟨q, short, le⟩ := exists_shortest least.1.drop
      have := least.2 (w :: q) (isPath_cons.mpr ⟨up, switch, short.1⟩)
      simp only [List.length_append, List.length_cons] at this further
      refine ⟨.inr switch, up, q.length + 1, .inr ⟨other, q, short, rfl⟩, ?_⟩
      rw [show q.length + 1 + 1 = before.length + (after.length + 1) + 1 by omega]
      exact further
    · obtain rfl : w = h := by simpa using last
      have := least.2 [] (isPath_nil.mpr up)
      rw [List.length_nil, Nat.le_zero] at this
      rw [this] at further
      exact ⟨.inl rfl, up, 0, .inl ⟨rfl, rfl⟩, further⟩

/-! ### The next hops of one host -/

variable {r : Routes α}

/-- The next hops towards `h` are the predecessors of a search from it. -/
structure Searched (net : Topology α) (r : Routes α) (h : α) (s : Search α) : Prop where
  host : net.nodeType h = .host
  shortest : Search.Shortest net.neighbours (isSwitch net) h s
  preds : ∀ v, r.nextHop v h = s.preds v

namespace Searched

theorem mem_nearer (found : Searched net r h s) (v w : α) : w ∈ r.nextHop v h ↔
    (w = h ∨ net.nodeType w = .switch) ∧ Up net.nbr2if v w ∧ ∃ n, Distance net h w n ∧
    Distance net h v (n + 1) := by
  have back : v ∈ net.neighbours w ↔ Up net.nbr2if v w := by
    rw [mem_neighbours]
    exact ⟨net.symmetric w v, net.symmetric v w⟩
  rw [found.preds, found.shortest.preds, back]
  simp only [label_distance found.host found.shortest, isSwitch, decide_eq_true_eq]

theorem mem_shortest (found : Searched net r h s) {v : α} (away : v ≠ h) (w : α) :
    w ∈ r.nextHop v h ↔
    Up net.nbr2if v w ∧ ∃ interior, IsShortest net v interior h ∧ w ∈ interior ++ [h] := by
  rw [found.mem_nearer, nearer_iff found.host away]

theorem nil_iff (found : Searched net r h s) {v : α} (away : v ≠ h) :
    r.nextHop v h = [] ↔ ¬∃ interior, IsPath net v interior h := by
  rw [List.eq_nil_iff_forall_not_mem]
  constructor
  · rintro none ⟨interior, path⟩
    obtain ⟨p, short, _⟩ := exists_shortest path
    cases p with
    | nil =>
        exact none h ((found.mem_shortest away h).mpr ⟨isPath_nil.mp short.1, [], short, by simp⟩)
    | cons w p =>
      exact none w ((found.mem_shortest away w).mpr ⟨(isPath_cons.mp short.1).1, w :: p,
        short, by simp⟩)
  · intro none w mem
    obtain ⟨_, interior, short, _⟩ := (found.mem_shortest away w).mp mem
    exact none ⟨interior, short.1⟩

theorem forward_distance (found : Searched net r h s) {choose : ℕ → α → α}
    (chooses : Chooses r h choose) {v : α} {n : ℕ} (far : Distance net h v n) {k : ℕ} (le : k ≤ n) :
    Distance net h (forward choose v k) (n - k) := by
  induction k with
  | zero => exact far
  | succ k ih =>
    have here := ih (by omega)
    obtain ⟨_, zero⟩ | ⟨away, interior, short, length⟩ := here
    · omega
    · have some_hop : r.nextHop (forward choose v k) h ≠ [] := fun none =>
        (found.nil_iff away).mp none ⟨interior, short.1⟩
      obtain ⟨_, _, m, nearer, same⟩ := (found.mem_nearer _ _).mp (chooses k _ away some_hop)
      have := distance_unique (ih (by omega)) same
      rw [show n - (k + 1) = m by omega]
      exact nearer

theorem forward_reaches (found : Searched net r h s) {choose : ℕ → α → α}
    (chooses : Chooses r h choose) {v : α}
    {n : ℕ} (far : Distance net h v n) : forward choose v n = h := by
  have last := found.forward_distance chooses far (Nat.le_refl n)
  rw [Nat.sub_self] at last
  obtain ⟨same, _⟩ | ⟨_, _, _, length⟩ := last
  · exact same
  · omega

theorem forward_apart (found : Searched net r h s) {choose : ℕ → α → α}
    (chooses : Chooses r h choose) {v : α}
    {n : ℕ} (far : Distance net h v n) {j k : ℕ} (lt : j < k) (le : k ≤ n) :
    forward choose v j ≠ forward choose v k := by
  intro same
  have left := found.forward_distance chooses far (show j ≤ n by omega)
  rw [same] at left
  have := distance_unique left (found.forward_distance chooses far le)
  omega

end Searched

variable [DecidableEq α] {packetPayload : UInt64}

theorem calculateRoutes_exact (fresh : ∀ v h, r.nextHop v h = []) :
    ∃ r', calculateRoutes net packetPayload r = some r' ∧ Exact net r' ∧
      ∀ h, h ∉ net.nodes ∨ net.nodeType h ≠ .host → ∀ v, r'.nextHop v h = [] := by
  obtain ⟨r', done, hosts, others⟩ :=
    @routes_shortest_of_fresh _ _ net packetPayload _ net.nodes_nodup
    (fun h mem => mem) r fun h _ v => fresh v h
  have searched : ∀ h ∈ net.nodes, net.nodeType h = .host → ∃ s, Searched net r' h s := by
    intro h mem host
    obtain ⟨s, shortest, preds⟩ := hosts h mem host
    exact ⟨s, host, shortest, preds⟩
  refine ⟨r', done, ⟨fun h mem host v away => ?_, fun h mem host v => ?_,
    fun h mem host v away => ?_, fun h mem host choose chooses v n far => ?_⟩, fun h away v =>
      (others h away v).trans (fresh v h)⟩
  · obtain ⟨s, found⟩ := searched h mem host
    exact found.mem_shortest away
  · obtain ⟨s, found⟩ := searched h mem host
    rw [found.preds]
    exact found.shortest.preds_nodup v
  · obtain ⟨s, found⟩ := searched h mem host
    exact found.nil_iff away
  · obtain ⟨s, found⟩ := searched h mem host
    exact ⟨fun k le => found.forward_distance chooses far le, found.forward_reaches chooses far,
      fun j k lt le => found.forward_apart chooses far lt le⟩

/-! ### Links taken down -/

theorem interfaceOf_up (v w : α) : (interfaceOf net.nbr2if v w).up = true ↔ Up net.nbr2if v w := by
  unfold interfaceOf Up
  constructor
  · intro up
    cases found : (net.nbr2if v).find? fun it => it.1 = w with
    | none => simp [found] at up
    | some it =>
      have key : it.1 = w := by simpa using List.find?_some found
      have mem := List.mem_of_find?_eq_some found
      exact ⟨it.2, key ▸ mem, by simpa [found] using up⟩
  · rintro ⟨i, mem, up⟩
    -- the keys of the map are distinct, so the entry found is this one
    cases found : (net.nbr2if v).find? fun it => it.1 = w with
    | none => simpa using List.find?_eq_none.mp found (w, i) mem
    | some it =>
      have key : it.1 = w := by simpa using List.find?_some found
      have same : it = (w, i) :=
        List.inj_on_of_nodup_map (net.keys_nodup v) (List.mem_of_find?_eq_some found) mem key
      simp [same, up]

theorem up_takeDown {a b v w : α} : Up (net.takeDown a b).nbr2if v w ↔
    Up net.nbr2if v w ∧ (v, w) ≠ (a, b) ∧ (w, v) ≠ (a, b) := by
  show Up (setDown (setDown net.nbr2if b a) a b) v w ↔ _
  rw [up_setDown, up_setDown]
  simp only [ne_eq, Prod.mk.injEq]
  tauto

/-- The nodes of `net`, and its links without those in `links`. -/
structure Without (net net' : Topology α) (links : List (α × α)) : Prop where
  nodes : net'.nodes = net.nodes
  nodeType : net'.nodeType = net.nodeType
  up : ∀ v w, Up net'.nbr2if v w ↔ Up net.nbr2if v w ∧ ∀ ab ∈ links, (v, w) ≠ ab ∧ (w, v) ≠ ab

theorem takeDownLink_exact {s : Control α} (exact : Exact s.net s.routes) (ab : α × α) :
    ∃ s', takeDownLink packetPayload s ab = some s' ∧ Without s.net s'.net [ab] ∧
    Exact s'.net s'.routes := by
  unfold takeDownLink
  by_cases up : (interfaceOf s.net.nbr2if ab.1 ab.2).up = true
  · obtain ⟨r, done, exact, _⟩ := @calculateRoutes_exact α (s.net.takeDown ab.1 ab.2)
      { s.routes with nextHop := fun _ _ => [] } _ packetPayload fun _ _ => rfl
    simp only [up, Bool.not_true, Bool.false_eq_true, if_false, done, Option.bind_eq_bind,
      Option.bind_some]
    refine ⟨_, rfl, ⟨rfl, rfl, fun v w => ?_⟩, exact⟩
    simpa using @up_takeDown α s.net _ ab.1 ab.2 v w
  · have down : (interfaceOf s.net.nbr2if ab.1 ab.2).up = false := by simpa using up
    simp only [down, Bool.not_false, if_true]
    refine ⟨s, rfl, ⟨rfl, rfl, fun v w => ⟨fun there => ⟨there, ?_⟩, And.left⟩⟩, exact⟩
    rw [interfaceOf_up] at up
    simp only [List.mem_singleton, forall_eq]
    exact ⟨fun same => up (same ▸ there), fun same => up (same ▸ s.net.symmetric v w there)⟩

theorem setUp_exact (packetPayload : UInt64) (net : Topology α) :
    ∃ s, setUp packetPayload net = some s ∧ s.net = net ∧ Exact s.net s.routes := by
  obtain ⟨r, done, exact, _⟩ := @calculateRoutes_exact α net .empty _ packetPayload fun _ _ => rfl
  exact ⟨⟨net, r, setRoutingEntries net r .empty⟩, by simp [setUp, done], rfl, exact⟩

theorem takeDowns_exact {s : Control α} (exact : Exact s.net s.routes) (links : List (α × α)) :
    ∃ t, links.foldlM (takeDownLink packetPayload) s = some t ∧ Without s.net t.net links ∧
    Exact t.net t.routes := by
  induction links generalizing s with
  | nil => exact ⟨s, rfl, ⟨rfl, rfl, by simp⟩, exact⟩
  | cons ab links ih =>
    obtain ⟨s', first, less, exact'⟩ := @takeDownLink_exact α _ packetPayload s exact ab
    obtain ⟨t, rest, without, last⟩ := ih exact'
    refine ⟨t, ?_, ⟨without.nodes.trans less.nodes, without.nodeType.trans less.nodeType,
      fun v w => ?_⟩, last⟩
    · rw [List.foldlM_cons, first]
      exact rest
    · rw [without.up, less.up]
      simp only [List.mem_cons, List.not_mem_nil, or_false, forall_eq, forall_eq_or_imp, and_assoc]

/-- After the routes are calculated, and after links are taken down one by one, the next hops are
exactly those on the shortest paths, and every way of following them leads to the host. -/
theorem shortest_routes (packetPayload : UInt64) (net : Topology α) (links : List (α × α)) :
    ∃ s, (setUp packetPayload net >>= fun s => links.foldlM (takeDownLink packetPayload) s) =
      some s ∧ Without net s.net links ∧ Exact s.net s.routes := by
  obtain ⟨s, begun, rfl, start⟩ := setUp_exact packetPayload net
  obtain ⟨t, ends, without, exact⟩ := @takeDowns_exact α _ packetPayload s start links
  refine ⟨t, ?_, without, exact⟩
  rw [begun]
  exact ends

/-! ### Two ways to a host -/

/-- Two hosts, and two switches between them. -/
inductive Corner where
  | left | upper | lower | right
  deriving DecidableEq

def squareLinks : Corner → List (Corner × Interface)
  | .left | .right =>
      [(.upper, ⟨1, true, 1000, 100000000000⟩), (.lower, ⟨2, true, 1000, 100000000000⟩)]
  | .upper | .lower =>
      [(.left, ⟨1, true, 1000, 100000000000⟩), (.right, ⟨2, true, 1000, 100000000000⟩)]

theorem squareLinks_up {v w : Corner} : Up squareLinks v w ↔
    ((squareLinks v).any fun it => decide (it.1 = w) && it.2.up) = true := by
  simp [Up]

theorem corners_nodup : [Corner.left, .upper, .lower, .right].Nodup := by decide

theorem mem_corners (v : Corner) : v ∈ [Corner.left, .upper, .lower, .right] := by
  cases v <;> decide

theorem squareLinks_nodup (v : Corner) : ((squareLinks v).map Prod.fst).Nodup := by
  cases v <;> decide

theorem squareLinks_symmetric (v w : Corner) (up : Up squareLinks v w) : Up squareLinks w v := by
  rw [squareLinks_up] at up ⊢
  cases v <;> cases w <;> first | exact absurd up (by decide) | decide

def square : Topology Corner where
  nodes := [.left, .upper, .lower, .right]
  nodeType
    | .left | .right => .host
    | .upper | .lower => .switch
  getId v := v.ctorIdx
  address v := UInt32.ofNat v.ctorIdx
  nbr2if := squareLinks
  nodes_nodup := corners_nodup
  keys_nodup := squareLinks_nodup
  closed _ e _ := mem_corners e.1
  symmetric := squareLinks_symmetric

/-- With the link to the upper switch down, one host reaches the other over the lower one only. -/
theorem shortest_routes_square : ∃ s : Control Corner,
    (∀ v w, Up s.net.nbr2if v w ↔ Up square.nbr2if v w ∧
    (v, w) ≠ (.left, .upper) ∧ (w, v) ≠ (.left, .upper)) ∧
    s.routes.nextHop .left .right = [.lower] ∧ Exact s.net s.routes := by
  obtain ⟨s, run, without, exact⟩ := shortest_routes 1000 square [(.left, .upper)]
  have hops : ((setUp 1000 square >>= fun s => [(Corner.left, Corner.upper)].foldlM
      (takeDownLink 1000) s).any fun s =>
      decide (s.routes.nextHop .left .right = [.lower])) = true := by decide +kernel
  rw [run] at hops
  exact ⟨s, fun v w => by simpa using without.up v w, of_decide_eq_true hops, exact⟩

end Route

end Pyrrha

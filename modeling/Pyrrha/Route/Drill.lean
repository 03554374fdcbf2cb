import Pyrrha.Route.Shortest

/-!
Routing with DRILL at one switch: `GetOutDev` and `SelectEgressByDRILL`, with the port that is
remembered for every destination. `ClearTable` leaves the remembered ports as they are.
-/

namespace Pyrrha

namespace Drill

/-- `Settings::drill_load_mode`. -/
inductive LoadMode where
  | intervalSent | queueLength
  deriving DecidableEq, Repr

/-- The two counters of an egress queue. -/
structure Queue where
  nTotalReceivedBytes : UInt32
  bytesInQueueTotal : UInt32
  deriving DecidableEq

/-- `drillCandidate` is `m_drill_candidate`. -/
structure Config where
  loadMode : LoadMode
  drillCandidate : ℕ

/-- What was decided for a packet: its destination, the table at that time, and the port. -/
structure Decision where
  dip : UInt32
  nexthops : List ℕ
  egress : ℕ
  deriving DecidableEq

/-- The switch. A device without a queue is `none`, and an entry without next hops is one that is
not there. `log` is what was decided so far. -/
structure State where
  rtTable : UInt32 → List ℕ := fun _ => []
  previousBest : UInt32 → Option ℕ := fun _ => none
  devices : ℕ → Option Queue := fun _ => none
  log : List Decision := []

/-- The variables `leastLoadInterface` and `leastLoad`. -/
structure Least where
  interface : ℕ
  load : UInt32
  deriving DecidableEq

/-- `CalculateInterfaceLoad`; `none` is its assert. -/
def calculateInterfaceLoad (cfg : Config) (s : State) (interface : ℕ) : Option UInt32 :=
  (s.devices interface).map fun q =>
    match cfg.loadMode with
    | .intervalSent => q.nTotalReceivedBytes
    | .queueLength => q.bytesInQueueTotal

/-- The variables before the samples. -/
def start (cfg : Config) (s : State) (dip : UInt32) : Option Least :=
  match s.previousBest dip with
  | some port => (calculateInterfaceLoad cfg s port).map fun load => ⟨port, load⟩
  | none => some ⟨0, 0xffffffff⟩

def sample (load : ℕ → Option UInt32) (least : Least) (port : ℕ) : Option Least :=
  (load port).map fun sampleLoad => if sampleLoad < least.load then ⟨port, sampleLoad⟩ else least

/-- `SelectEgressByDRILL` with the next hops as `random_shuffle` has left them. -/
def selectEgress (cfg : Config) (s : State) (dip : UInt32) (nexthops : List ℕ) : Option Least := do
  let least ← start cfg s dip
  (nexthops.take cfg.drillCandidate).foldlM (sample (calculateInterfaceLoad cfg s)) least

/-- `shuffled` is an outcome of `random_shuffle`. -/
inductive Event where
  | addTableEntry (dip : UInt32) (intfIdx : ℕ)
  | clearTable
  | load (devices : ℕ → Option Queue)
  | getOutDev (dip : UInt32) (shuffled : List ℕ)

def step (cfg : Config) (s : State) : Event → Option State
  | .addTableEntry dip intfIdx =>
    some { s with rtTable := Function.update s.rtTable dip (s.rtTable dip ++ [intfIdx]) }
  | .clearTable => some { s with rtTable := fun _ => [] }
  | .load devices => some { s with devices }
  | .getOutDev dip shuffled =>
    if s.rtTable dip = [] then some s
    else if shuffled.isPerm (s.rtTable dip) then do
      let least ← selectEgress cfg s dip shuffled
      some { s with
        rtTable := Function.update s.rtTable dip shuffled
        previousBest := Function.update s.previousBest dip (some least.interface)
        log := s.log ++ [⟨dip, shuffled, least.interface⟩] }
    else none

def run (cfg : Config) (evs : List Event) : Option State := evs.foldlM (step cfg) {}

/-! ### One decision -/

/-- The port that is compared first is a current next hop, or a sampled one carries less load. -/
def Keeps (cfg : Config) (s : State) : Event → Prop
  | .getOutDev dip shuffled => s.rtTable dip ≠ [] → ∀ least, start cfg s dip = some least →
      least.interface ∈ s.rtTable dip ∨
        ∃ port ∈ shuffled.take cfg.drillCandidate, ∃ x, calculateInterfaceLoad cfg s port = some x ∧
        x < least.load
  | _ => True

/-- Every packet so far went to a port that was a next hop when it was routed. -/
def Routed (s : State) : Prop := ∀ d ∈ s.log, d.egress ∈ d.nexthops

variable {cfg : Config} {s t : State}

/-- The samples leave the first port, unless one of them carries less load. -/
theorem sample_cases {load : ℕ → Option UInt32} {ports : List ℕ} {least best : Least}
    (h : ports.foldlM (sample load) least = some best) :
    (best = least ∧ ∀ port ∈ ports, ∀ x, load port = some x → ¬x < least.load) ∨
      (best.interface ∈ ports ∧ load best.interface = some best.load ∧ best.load < least.load) := by
  induction ports generalizing least with
  | nil =>
    obtain rfl := Option.some.inj h
    exact .inl ⟨rfl, fun port member => absurd member List.not_mem_nil⟩
  | cons port rest ih =>
    obtain ⟨next, first, later⟩ := Option.bind_eq_some_iff.mp ((List.foldlM_cons ..).symm.trans h)
    obtain ⟨x, known, chosen⟩ := Option.map_eq_some_iff.mp first
    split at chosen
    · rename_i less
      subst chosen
      rcases ih later with ⟨rfl, -⟩ | ⟨member, loaded, lower⟩
      · exact .inr ⟨List.mem_cons_self, known, less⟩
      · exact .inr ⟨List.mem_cons_of_mem port member, loaded, UInt32.lt_trans lower less⟩
    · rename_i notLess
      subst chosen
      rcases ih later with ⟨rfl, none⟩ | ⟨member, loaded, lower⟩
      · refine .inl ⟨rfl, fun q member y knownY => ?_⟩
        rcases List.mem_cons.mp member with rfl | other
        · obtain rfl := Option.some.inj (known.symm.trans knownY)
          exact notLess
        · exact none q other y knownY
      · exact .inr ⟨List.mem_cons_of_mem port member, loaded, lower⟩

theorem selectEgress_mem_iff {dip : UInt32} {shuffled : List ℕ} {best : Least}
    (filled : s.rtTable dip ≠ []) (perm : shuffled.Perm (s.rtTable dip))
    (h : selectEgress cfg s dip shuffled = some best) :
    best.interface ∈ shuffled ↔ Keeps cfg s (.getOutDev dip shuffled) := by
  obtain ⟨least, begun, samples⟩ := Option.bind_eq_some_iff.mp h
  have taken : ∀ port ∈ shuffled.take cfg.drillCandidate, port ∈ shuffled := fun port member =>
    List.mem_of_mem_take member
  rcases sample_cases samples with ⟨rfl, none⟩ | ⟨member, loaded, lower⟩
  · constructor
    · intro inside _ least' begun'
      obtain rfl := Option.some.inj (begun.symm.trans begun')
      exact .inl (perm.subset inside)
    · intro keeps
      rcases keeps filled _ begun with inside | ⟨port, sampled, x, known, less⟩
      · exact perm.symm.subset inside
      · exact absurd less (none port sampled x known)
  · refine iff_of_true (taken _ member) fun _ least' begun' => ?_
    obtain rfl := Option.some.inj (begun.symm.trans begun')
    exact .inr ⟨_, member, _, loaded, lower⟩

theorem step_routed_iff {ev : Event} (h : step cfg s ev = some t) : Routed t ↔ Routed s ∧
    Keeps cfg s ev := by
  cases ev with
  | addTableEntry dip intfIdx =>
    obtain rfl := Option.some.inj h
    exact (and_iff_left trivial).symm
  | clearTable =>
    obtain rfl := Option.some.inj h
    exact (and_iff_left trivial).symm
  | load devices =>
    obtain rfl := Option.some.inj h
    exact (and_iff_left trivial).symm
  | getOutDev dip shuffled =>
    dsimp only [step] at h
    split at h
    · rename_i missing
      obtain rfl := Option.some.inj h
      exact (and_iff_left fun filled => absurd missing filled).symm
    · rename_i filled
      split at h
      · rename_i perm
        obtain ⟨best, selected, rest⟩ := Option.bind_eq_some_iff.mp h
        obtain rfl := Option.some.inj rest
        have decided := selectEgress_mem_iff filled (List.isPerm_iff.mp perm) selected
        rw [← decided]
        simp only [Routed, List.mem_append, List.mem_singleton]
        constructor
        · intro all
          exact ⟨fun d member => all d (.inl member), all _ (.inr rfl)⟩
        · rintro ⟨old, new⟩ d (member | rfl)
          · exact old d member
          · exact new
      · cases h

/-- In a run every packet goes along a current route just when, whenever a packet is routed, the
port that is compared first is a current next hop or a sampled one carries less load. -/
theorem run_routed_iff {evs : List Event} (h : run cfg evs = some s) :
    Routed s ↔ ∀ before ev after, evs = before ++ ev :: after → ∀ t, run cfg before = some t →
    Keeps cfg t ev := by
  induction evs using List.reverseRecOn generalizing s with
  | nil =>
    obtain rfl := Option.some.inj h
    refine iff_of_true (fun d member => absurd member List.not_mem_nil) fun before ev after same =>
      ?_
    simp at same
  | append_singleton evs last ih =>
    unfold run at h
    rw [List.foldlM_append] at h
    obtain ⟨mid, begun, ended⟩ := Option.bind_eq_some_iff.mp h
    have taken : step cfg mid last = some s := by simpa using ended
    rw [step_routed_iff taken, ih begun]
    constructor
    · rintro ⟨earlier, now⟩ before ev after same t reached
      rcases List.eq_nil_or_concat after with rfl | ⟨later, final, rfl⟩
      · obtain ⟨rfl, rfl⟩ := List.append_singleton_inj.mp same
        obtain rfl := Option.some.inj (begun.symm.trans reached)
        exact now
      · rw [List.concat_eq_append, ← List.cons_append, ← List.append_assoc] at same
        exact earlier before ev later (List.append_singleton_inj.mp same).1 t reached
    · intro all
      refine ⟨fun before ev after same t reached => ?_, all evs last [] rfl mid begun⟩
      refine all before ev (after ++ [last]) ?_ t reached
      rw [same, List.append_assoc, List.cons_append]

/-- With equal loads the port of a route that is gone is taken again. -/
def goneRoute : List Event :=
  [.addTableEntry 7 1, .load fun _ => some ⟨0, 0⟩, .getOutDev 7 [1], .clearTable,
    .addTableEntry 7 2, .getOutDev 7 [2]]

theorem run_goneRoute : ∃ s, run ⟨.queueLength, 2⟩ goneRoute = some s ∧
    s.log = [⟨7, [1], 1⟩, ⟨7, [2], 1⟩] :=
  ⟨_, rfl, by decide⟩

theorem run_routed_goneRoute : ∃ s, run ⟨.queueLength, 2⟩ goneRoute = some s ∧ (Routed s ↔
    ∀ before ev after, goneRoute = before ++ ev :: after →
    ∀ t, run ⟨.queueLength, 2⟩ before = some t → Keeps ⟨.queueLength, 2⟩ t ev) :=
  ⟨_, rfl, run_routed_iff rfl⟩

end Drill

namespace Route

variable {α : Type*} [DecidableEq α] {net : Topology α} {r : Routes α}

/-! ### The tables are the routes -/

/-- The ids and the addresses of the nodes are distinct. -/
structure Distinct (net : Topology α) : Prop where
  getId : ∀ v ∈ net.nodes, ∀ w ∈ net.nodes, net.getId v = net.getId w → v = w
  address : ∀ v ∈ net.nodes, ∀ w ∈ net.nodes, net.address v = net.address w → v = w

/-- The entries of a switch for a host are the interfaces of its next hops. -/
def Listed (net : Topology α) (r : Routes α) (t : Tables) : Prop :=
  ∀ v ∈ net.nodes, ∀ h ∈ net.nodes, ∀ port, port ∈ t.rtTable (net.getId v) (net.address h) ↔
    ∃ w ∈ r.nextHop v h, port = (interfaceOf net.nbr2if v w).idx

theorem mem_addTableEntry {t : Tables} {node node' intfIdx port : ℕ} {dip dip' : UInt32} :
    port ∈ (t.addTableEntry node' dip' intfIdx).rtTable node dip ↔
      port ∈ t.rtTable node dip ∨ (node = node' ∧ dip = dip' ∧ port = intfIdx) := by
  show port ∈ Tables.push t.rtTable node' dip' intfIdx node dip ↔ _
  unfold Tables.push
  split
  · rename_i same
    simp [same]
  · rename_i other
    exact ⟨.inl, fun mem => mem.resolve_right fun new => other ⟨new.1, new.2.1⟩⟩

theorem mem_foldl {β : Type*} {f : Tables → β → Tables} {l : List β} {t : Tables} {node port : ℕ}
    {dip : UInt32} {adds : β → Prop} (each : ∀ t x, port ∈ (f t x).rtTable node dip ↔
      port ∈ t.rtTable node dip ∨ adds x) :
    port ∈ (l.foldl f t).rtTable node dip ↔ port ∈ t.rtTable node dip ∨ ∃ x ∈ l, adds x := by
  induction l generalizing t with
  | nil => simp
  | cons x rest ih =>
    rw [List.foldl_cons, ih, each]
    simp only [List.mem_cons, exists_eq_or_imp, or_assoc]

theorem setRoutingEntries_listed (distinct : Distinct net) {t : Tables}
    (cleared : ∀ v ∈ net.nodes, ∀ dip, t.rtTable (net.getId v) dip = []) :
    Listed net r (setRoutingEntries net r t) := by
  intro v memV h memH port
  unfold setRoutingEntries
  rw [mem_foldl fun t node => mem_foldl fun t dst =>
    mem_foldl (l := r.nextHop node dst) fun t next =>
    @mem_addTableEntry t _ (net.getId node) (interfaceOf net.nbr2if node next).idx port _
      (net.address dst), cleared v memV]
  constructor
  · rintro (old | ⟨node, memNode, dst, memDst, next, hop, ids, addresses, same⟩)
    · exact absurd old List.not_mem_nil
    · obtain rfl := distinct.getId v memV node memNode ids
      obtain rfl := distinct.address h memH dst memDst addresses
      exact ⟨next, hop, same⟩
  · rintro ⟨w, hop, same⟩
    exact .inr ⟨v, memV, h, memH, w, hop, rfl, rfl, same⟩

omit [DecidableEq α] in
theorem foldl_clearTable {l : List α} {t : Tables} {id : α → ℕ} {v : α} (mem : v ∈ l)
    (dip : UInt32) :
    (l.foldl (fun t node => t.clearTable (id node)) t).rtTable (id v) dip = [] := by
  induction l using List.reverseRecOn with
  | nil => exact absurd mem List.not_mem_nil
  | append_singleton rest last ih =>
    rw [List.foldl_append]
    show (if id v = id last then fun _ => [] else _ : UInt32 → List ℕ) dip = []
    split
    · rfl
    · rename_i other
      refine ih ((List.mem_append.mp mem).resolve_right fun lastOne => other ?_)
      rw [List.mem_singleton.mp lastOne]

/-- The nodes keep their ids and addresses, and the tables are the routes. -/
structure Current (net : Topology α) (s : Control α) : Prop where
  nodes : s.net.nodes = net.nodes
  getId : s.net.getId = net.getId
  address : s.net.address = net.address
  listed : Listed s.net s.routes s.tables

theorem distinct_current {s : Control α} (distinct : Distinct net) (h : Current net s) :
    Distinct s.net := by
  constructor
  · rw [h.nodes, h.getId]
    exact distinct.getId
  · rw [h.nodes, h.address]
    exact distinct.address

theorem setUp_current {packetPayload : UInt64} {s : Control α} (distinct : Distinct net)
    (h : setUp packetPayload net = some s) : Current net s := by
  obtain ⟨routes, _, rest⟩ := Option.bind_eq_some_iff.mp h
  obtain rfl := Option.some.inj rest
  exact ⟨rfl, rfl, rfl, setRoutingEntries_listed distinct fun _ _ _ => rfl⟩

theorem takeDownLink_current {packetPayload : UInt64} {s t : Control α} {ab : α × α}
    (distinct : Distinct net)
    (h : Current net s) (down : takeDownLink packetPayload s ab = some t) : Current net t := by
  unfold takeDownLink at down
  split at down
  · obtain rfl := Option.some.inj down
    exact h
  · obtain ⟨routes, _, rest⟩ := Option.bind_eq_some_iff.mp down
    obtain rfl := Option.some.inj rest
    have before := distinct_current distinct h
    have there : Distinct (s.net.takeDown ab.1 ab.2) := ⟨before.getId, before.address⟩
    exact ⟨h.nodes, h.getId, h.address, setRoutingEntries_listed there fun v mem dip =>
      foldl_clearTable mem dip⟩

/-- After the routes are set up and links are taken down one by one, each table entry is an up link
on a shortest path. -/
theorem entries_shortest (packetPayload : UInt64) (distinct : Distinct net) (links : List (α × α)) :
    ∃ s, (setUp packetPayload net >>= fun s => links.foldlM (takeDownLink packetPayload) s) =
      some s ∧
      ∀ v ∈ net.nodes, ∀ h ∈ net.nodes, net.nodeType h = .host → v ≠ h → ∀ nexthops : List ℕ,
        nexthops.Perm (s.tables.rtTable (net.getId v) (net.address h)) → ∀ port ∈ nexthops,
          ∃ w, port = (interfaceOf s.net.nbr2if v w).idx ∧ Up s.net.nbr2if v w ∧
            ∃ interior, IsShortest s.net v interior h ∧ w ∈ interior ++ [h] := by
  obtain ⟨first, begun, same, start⟩ := setUp_exact packetPayload net
  obtain ⟨s, rest, without, exact⟩ := @takeDowns_exact α _ packetPayload first start links
  refine ⟨s, by rw [begun]; exact rest, ?_⟩
  have current : Current net s := by
    have begins := setUp_current distinct begun
    clear start begun same without exact
    induction links generalizing first with
    | nil =>
      obtain rfl := Option.some.inj rest
      exact begins
    | cons ab links ih =>
      obtain ⟨mid, down, rest⟩ := Option.bind_eq_some_iff.mp ((List.foldlM_cons ..).symm.trans rest)
      exact ih mid rest (takeDownLink_current distinct begins down)
  intro v memV h memH host away nexthops perm port member
  rw [← current.nodes] at memV memH
  rw [← same, ← without.nodeType] at host
  have entry := perm.subset member
  rw [← current.getId, ← current.address] at entry
  obtain ⟨w, hop, same⟩ := (current.listed v memV h memH port).mp entry
  exact ⟨w, same, (exact.mem h memH host v away w).mp hop⟩

end Route

end Pyrrha

import Pyrrha.Route.Data
import Pyrrha.Switch.Node

/-!
The route a sender predicts is the route the switches choose: both hash the same key at every
switch, and the tag of a packet advances by one hop at each of them.
-/

namespace Pyrrha

namespace Route

variable {net : Network} {stale : UInt16 × UInt16} {p : Packet}

/-! ### Forwarding -/

def Network.target (net : Network) (p : Packet) : ℕ := net.hostIp2IdMap p.header.dip

/-- The switches and their egress ports from a node to the destination, as `GetOutDev` chooses them
hop by hop. -/
inductive Forwards (net : Network) (stale : UInt16 × UInt16) (p : Packet) : ℕ →
    List Spot → Prop where
  | arrived : Forwards net stale p (net.target p) []
  | hop {v e : ℕ} {rest : List Spot} : v ≠ net.target p → getOutDev net stale v p = some e →
      Forwards net stale p (net.linkNode v e) rest → Forwards net stale p v (⟨v, e⟩ :: rest)

/-- The prediction for a packet from its own addresses, ports and queue pair. -/
def ownHops (net : Network) (p : Packet) : ℕ → ℕ → ℕ → RoutingTag → Option RoutingTag :=
  calcuHops net p.header.sip p.header.dip p.header.sport.toUInt32 p.header.dport.toUInt32 p.qpId

theorem ownHops_hop {v e node idx room : ℕ} {tag : RoutingTag}
    (ported : p.header.ports = some (p.header.sport, p.header.dport))
    (here : net.linkNode node idx = v)
    (away : v ≠ net.target p) (picked : getOutDev net stale v p = some e) :
    ownHops net p room node idx tag =
      if room = 0 then none else (enqueueRouting tag v e).bind (ownHops net p (room - 1) v e) := by
  unfold getOutDev at picked
  rw [net.tables.agree] at picked
  unfold ownHops
  have unreached : ¬v = net.hostIp2IdMap p.header.dip := away
  rw [calcuHops, here, if_neg unreached]
  dsimp only at picked ⊢
  cases entry : net.tables.nodeRtTable v p.header.dip with
  | nil =>
    rw [entry] at picked
    cases picked
  | cons first others =>
    rw [entry, ported] at picked
    simp only [Option.getD_some, UInt16.toUInt32_or] at picked
    have same := Option.some.inj picked
    dsimp only
    cases room with
    | zero => rfl
    | succ room =>
      rw [same]
      rfl

theorem ownHops_forwards {hops : List Spot} {node idx room : ℕ} {tag : RoutingTag}
    (ported : p.header.ports = some (p.header.sport, p.header.dport))
    (room_left : tag.activeHop + room = maxHop)
    (fwd : Forwards net stale p (net.linkNode node idx) hops) : ownHops net p room node idx tag =
      if hops.length ≤ room then some { tag with routing := tag.routing ++ hops } else none := by
  generalize here : net.linkNode node idx = v at fwd
  induction fwd generalizing node idx room tag with
  | arrived =>
    have reached : net.linkNode node idx = net.hostIp2IdMap p.header.dip := here
    unfold ownHops
    rw [calcuHops, if_pos reached]
    simp
  | @hop v e rest away picked fwd ih =>
    rw [ownHops_hop ported here away picked]
    cases room with
    | zero => simp
    | succ room =>
      have more : enqueueRouting tag v e = some { tag with routing := tag.routing ++ [⟨v, e⟩] } :=
        if_pos (by omega)
      have left : RoutingTag.activeHop { tag with routing := tag.routing ++ [⟨v, e⟩] } + room =
          maxHop := by
        simp only [RoutingTag.activeHop, List.length_append, List.length_singleton] at room_left ⊢
        omega
      rw [if_neg (Nat.succ_ne_zero room), more, Option.bind_some, Nat.add_sub_cancel, ih left rfl]
      simp only [List.length_cons, Nat.succ_le_succ_iff, List.append_assoc, List.singleton_append]

/-! ### The tag on the way -/

/-- What a packet's tag is after the packet has left a switch through output queue `q`. -/
def passedTag (q : ℕ) (tag : RoutingTag) : RoutingTag := if q = 0 then tag else tag.addCurrHop

theorem transmitStart_tag {n : ℕ} (s : Switch n) (dev : Fin n) (q : ℕ) (pkt : Pyrrha.Packet n) :
    (s.transmitStart dev q pkt).departed dev = s.departed dev ++
    [(pkt, passedTag q pkt.routingTag)] := by
  simp [Switch.transmitStart, passedTag]

/-- Where a packet comes by, with its tag, on the way from a node through output queues other than
queue 0. -/
inductive Carried (net : Network) (stale : UInt16 × UInt16) (p : Packet) (start : ℕ)
    (tag : RoutingTag) : ℕ → RoutingTag → Prop where
  | sent : Carried net stale p start tag start tag
  | passed {v e q : ℕ} {now : RoutingTag} : Carried net stale p start tag v now → v ≠ net.target p →
      getOutDev net stale v p = some e → q ≠ 0 →
        Carried net stale p start tag (net.linkNode v e) (passedTag q now)

/-- A packet on its way has come along the hops its tag counts, and the others are ahead. -/
theorem carried_hops {start v : ℕ} {hops : List Spot} {now : RoutingTag}
    (fwd : Forwards net stale p start hops) (carried : Carried net stale p start ⟨0, hops⟩ v now) :
    now.routing = hops ∧ Forwards net stale p v (hops.drop now.currHop) := by
  induction carried with
  | sent => exact ⟨rfl, fwd⟩
  | @passed v e q now _ away picked other ih =>
    obtain ⟨same, ahead⟩ := ih
    have next : passedTag q now = now.addCurrHop := if_neg other
    rw [next]
    refine ⟨same, ?_⟩
    show Forwards net stale p (net.linkNode v e) (hops.drop (now.currHop + 1))
    rw [← List.tail_drop]
    generalize hops.drop now.currHop = rest at ahead
    cases ahead with
    | arrived => exact absurd rfl away
    | hop _ picked' fwd' =>
      obtain rfl := Option.some.inj (picked.symm.trans picked')
      exact fwd'

/-! ### The packets of a queue pair -/

/-- The addresses and ports of a message at its sender. -/
structure Message where
  sip : UInt32
  dip : UInt32
  sport : UInt16
  dport : UInt16
  qpId : UInt32

/-- A data packet of `GetNxtPacket`. -/
def dataPacket (m : Message) : Packet := ⟨⟨.udp, m.sip, m.dip, m.sport, m.dport⟩, m.qpId⟩

/-- The tag `AddRdmaOperation` computes for a message on network interface `nic` of a host. -/
def dataTag (net : Network) (node nic : ℕ) (m : Message) : Option RoutingTag :=
  calcuAllRoutingHops net node nic m.sip m.dip m.sport.toUInt32 m.dport.toUInt32 m.qpId

/-- The ACK, NACK or SACK of a data packet in `ReceiveUdp`, or the token ACK of a token in
`ReceiveToken`. -/
def answerPacket (kind : ProtType) (received : Packet) : Packet where
  header := {
    l3Prot := kind
    sip := received.header.dip
    dip := received.header.sip
    sport := received.header.dport
    dport := received.header.sport }
  qpId := received.qpId

def answerTag (net : Network) (node nic : ℕ) (received : Packet) : Option RoutingTag :=
  calcuAllRoutingHops net node nic received.header.dip received.header.sip
    received.header.dport.toUInt32 received.header.sport.toUInt32 received.qpId

/-- The packets whose tag is computed with their own addresses and ports. -/
inductive Tagged (net : Network) (node nic : ℕ) : Packet → Option RoutingTag → Prop where
  | data (m : Message) : Tagged net node nic (dataPacket m) (dataTag net node nic m)
  | answer {kind : ProtType} (received : Packet) : kind ∈ [ProtType.ack, .nack, .sack, .tokenAck] →
      Tagged net node nic (answerPacket kind received) (answerTag net node nic received)

theorem tagged_own {node nic : ℕ} {tag : Option RoutingTag} (tagged : Tagged net node nic p tag) :
    p.header.ports = some (p.header.sport, p.header.dport) ∧
    tag = ownHops net p maxHop node nic ⟨0, []⟩ := by
  cases tagged with
  | data m => exact ⟨rfl, rfl⟩
  | answer received kind =>
    simp only [List.mem_cons, List.not_mem_nil, or_false] at kind
    rcases kind with rfl | rfl | rfl | rfl
    · exact ⟨rfl, rfl⟩
    · exact ⟨rfl, rfl⟩
    · exact ⟨rfl, rfl⟩
    · exact ⟨rfl, rfl⟩

/-- A route of at most `MAXHOP` switches is predicted exactly, and on the way outside queue 0 the
tag names the current switch and its egress; a longer route fails an assert. -/
theorem route_predicted {node nic : ℕ} {tag : Option RoutingTag} {hops : List Spot}
    (tagged : Tagged net node nic p tag) (fwd : Forwards net stale p (net.linkNode node nic) hops) :
    tag = (if hops.length ≤ maxHop then some ⟨0, hops⟩ else none) ∧
      ∀ t ∈ tag, ∀ v now e, Carried net stale p (net.linkNode node nic) t v now → v ≠ net.target p →
        getOutDev net stale v p = some e → now.routing[now.currHop]? = some ⟨v, e⟩ := by
  obtain ⟨ported, own⟩ := tagged_own tagged
  have unused : RoutingTag.activeHop ⟨0, []⟩ + maxHop = maxHop := Nat.zero_add maxHop
  have all := ownHops_forwards ported unused fwd
  rw [← own, List.nil_append] at all
  refine ⟨all, fun t member v now e carried away picked => ?_⟩
  rw [all] at member
  split at member
  · obtain rfl := Option.some.inj member
    obtain ⟨same, ahead⟩ := carried_hops fwd carried
    rw [same, ← List.head?_drop]
    generalize hops.drop now.currHop = rest at ahead
    cases ahead with
    | arrived => exact absurd rfl away
    | hop _ picked' _ =>
      obtain rfl := Option.some.inj (picked.symm.trans picked')
      rfl
  · cases member

/-- Two ways from host 0 to host 5: from switch 1 over switch 2 or 3 to switch 4. -/
def diamond : Network where
  linkNode v i := match v, i with
    | 0, _ => 1
    | 1, 1 => 2
    | 1, 2 => 3
    | 2, _ => 4
    | 3, _ => 4
    | _, _ => 5
  hostIp2IdMap _ := 5
  tables := {
    rtTable v _ := if v = 1 then [1, 2] else [7]
    nodeRtTable v _ := if v = 1 then [1, 2] else [7]
    agree := rfl }
  symmetricRouting := false
  ecmpUnit := .flow
  loadImbalanceTh := 1

theorem route_predicted_diamond :
    dataTag diamond 0 0 ⟨10, 20, 5, 4000, 1⟩ = some ⟨0, [⟨1, 2⟩, ⟨3, 7⟩, ⟨4, 7⟩]⟩ := by
  have fwd : Forwards diamond (0, 0) (dataPacket ⟨10, 20, 5, 4000, 1⟩) (diamond.linkNode 0 0)
      [⟨1, 2⟩, ⟨3, 7⟩, ⟨4, 7⟩] :=
    .hop (by decide) (by decide +kernel)
      (.hop (by decide) (by decide +kernel) (.hop (by decide) (by decide +kernel) .arrived))
  exact (route_predicted (.data _) fwd).1

def chain (host : ℕ) : Network where
  linkNode v _ := v + 1
  hostIp2IdMap _ := host
  tables := ⟨fun _ _ => [0], fun _ _ => [0], rfl⟩
  symmetricRouting := true
  ecmpUnit := .qp
  loadImbalanceTh := 0

theorem chain_picks (host v : ℕ) (p : Packet) : getOutDev (chain host) stale v p = some 0 := by
  simp [getOutDev, chain, Nat.mod_one]

/-- Over nine switches there is a route but no tag; and a packet that leaves a switch through queue
0 keeps the name of this switch in its tag. -/
theorem route_not_predicted :
    (∃ hops, hops.length = 9 ∧ Forwards (chain 10) (0, 0) (dataPacket ⟨10, 20, 5, 4000, 1⟩) 1 hops ∧
      dataTag (chain 10) 0 0 ⟨10, 20, 5, 4000, 1⟩ = none) ∧
    ∃ tag, answerTag (chain 3) 0 0 (dataPacket ⟨10, 20, 5, 4000, 1⟩) = some tag ∧
      getOutDev (chain 3) (0, 0) 1 (answerPacket .ack (dataPacket ⟨10, 20, 5, 4000, 1⟩)) = some 0 ∧
      (passedTag 0 tag).routing[(passedTag 0 tag).currHop]? = some ⟨1, 0⟩ := by
  constructor
  · refine ⟨[⟨1, 0⟩, ⟨2, 0⟩, ⟨3, 0⟩, ⟨4, 0⟩, ⟨5, 0⟩, ⟨6, 0⟩, ⟨7, 0⟩, ⟨8, 0⟩, ⟨9, 0⟩], rfl,
      ?_, by decide +kernel⟩
    repeat' first
      | exact .arrived
      | refine .hop (by decide) (chain_picks _ _ _) ?_
  · exact ⟨⟨0, [⟨1, 0⟩, ⟨2, 0⟩]⟩, by decide +kernel, chain_picks _ _ _, rfl⟩

end Route

end Pyrrha

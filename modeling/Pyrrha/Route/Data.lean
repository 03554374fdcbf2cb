import Pyrrha.Switch.Data

/-!
Routing with ECMP: the tables of the nodes, the hash that picks among next hops, and the parts of a
packet it reads.
-/

namespace Pyrrha

namespace Route

/-- `Settings::ecmp_unit`. -/
inductive EcmpUnit where
  | flow | qp
  deriving DecidableEq, Repr

/-- What the routing of a packet reads of its header. `sport` and `dport` are the first words of the
union of transport headers, which `tcp`, `udp`, `sack`, `ack` and `tkn` share. -/
structure Header where
  l3Prot : ProtType
  sip : UInt32
  dip : UInt32
  sport : UInt16
  dport : UInt16
  deriving DecidableEq

/-- A packet with its `QPTag`. -/
structure Packet where
  header : Header
  qpId : UInt32
  deriving DecidableEq

/-- The routing tables, as each node keeps its own in `m_rtTable` and as all are kept in
`Settings::node_rtTable`. An entry without next hops is one that is not there. -/
structure Tables where
  rtTable : ℕ → UInt32 → List ℕ
  nodeRtTable : ℕ → UInt32 → List ℕ
  agree : rtTable = nodeRtTable

namespace Tables

def empty : Tables := ⟨fun _ _ => [], fun _ _ => [], rfl⟩

def push (table : ℕ → UInt32 → List ℕ) (node : ℕ) (dip : UInt32) (intfIdx : ℕ) : ℕ →
    UInt32 → List ℕ :=
  fun v d => if v = node ∧ d = dip then table v d ++ [intfIdx] else table v d

/-- `AddTableEntry` of a switch or a host. -/
def addTableEntry (t : Tables) (node : ℕ) (dip : UInt32) (intfIdx : ℕ) : Tables where
  rtTable := push t.rtTable node dip intfIdx
  nodeRtTable := push t.nodeRtTable node dip intfIdx
  agree := by rw [t.agree]

def clearTable (t : Tables) (node : ℕ) : Tables where
  rtTable v := if v = node then fun _ => [] else t.rtTable v
  nodeRtTable v := if v = node then fun _ => [] else t.nodeRtTable v
  agree := by rw [t.agree]

end Tables

/-- The network as routing sees it, with the settings of the hash. -/
structure Network where
  linkNode : ℕ → ℕ → ℕ
  hostIp2IdMap : UInt32 → ℕ
  tables : Tables
  symmetricRouting : Bool
  ecmpUnit : EcmpUnit
  loadImbalanceTh : ℕ

/-! ### The hash -/

/-- One word of the key in `Settings::EcmpHash`. -/
def mixWord (h k : UInt32) : UInt32 :=
  let k := k * 0xcc9e2d51
  let k := (k <<< 15) ||| (k >>> 17)
  let k := k * 0x1b873593
  let h := h ^^^ k
  let h := (h <<< 13) ||| (h >>> 19)
  h + ((h <<< 2) + 0xe6546b64)

/-- `Settings::EcmpHash` of a key of whole words. -/
def ecmpHash (key : List UInt32) (seed : UInt32) : UInt32 :=
  let h := key.foldl mixWord seed
  let h := h ^^^ UInt32.ofNat (4 * key.length)
  let h := h ^^^ (h >>> 16)
  let h := h * 0x85ebca6b
  let h := h ^^^ (h >>> 13)
  let h := h * 0xc2b2ae35
  h ^^^ (h >>> 16)

/-! ### A switch -/

/-- The ports `GetOutDev` reads. It has none for other kinds of packets, and hashes what its
variables hold. -/
def Header.ports (ch : Header) : Option (UInt16 × UInt16) :=
  match ch.l3Prot with
  | .tcp | .udp | .ack | .nack | .sack | .token | .tokenAck => some (ch.sport, ch.dport)
  | .ci | .req | .switchPsn | .switchAck | .pfc | .qcn => none

/-- `SwitchNode::GetOutDev` with ECMP at switch `mId`; `stale` is what its port variables hold at
first. -/
def getOutDev (net : Network) (stale : UInt16 × UInt16) (mId : ℕ) (p : Packet) : Option ℕ :=
  let ch := p.header
  match net.tables.rtTable mId ch.dip with
  | [] => none
  | nexthops =>
    let addresses := if net.symmetricRouting then [ch.sip ||| ch.dip, ch.dip ||| ch.sip]
      else [ch.sip, ch.dip]
    let last := match net.ecmpUnit with
      | .qp => p.qpId
      | .flow =>
        let (sport, dport) := ch.ports.getD stale
        if net.symmetricRouting then (sport ||| dport).toUInt32
          else sport.toUInt32 ||| (dport.toUInt32 <<< 16)
    let idx := (ecmpHash (addresses ++ [last]) (UInt32.ofNat mId)).toNat
    let idx := idx % (nexthops.length + net.loadImbalanceTh)
    let idx := if nexthops.length ≤ idx then 0 else idx
    some (nexthops.getD (idx % nexthops.length) 0)

/-! ### A host -/

/-- `RoutingTag::EnqueueRouting`; `none` is its assert. -/
def enqueueRouting (tag : RoutingTag) (switchId portId : ℕ) : Option RoutingTag :=
  if tag.activeHop < maxHop then some { tag with routing := tag.routing ++ [⟨switchId, portId⟩] }
    else none

/-- The loop of `RdmaHw::CalcuAllRoutingHops`; `room` is what the tag has left. -/
def calcuHops (net : Network) (sip dip sport dport qpId : UInt32) : ℕ → ℕ → ℕ → RoutingTag →
    Option RoutingTag
  | room, currNode, currIdx, tag =>
    if net.linkNode currNode currIdx = net.hostIp2IdMap dip then some tag
    else
      let currNode := net.linkNode currNode currIdx
      match net.tables.nodeRtTable currNode dip with
      | [] => some tag
      | nexthops =>
        let addresses := if net.symmetricRouting then [sip ||| dip, dip ||| sip] else [sip, dip]
        let last := match net.ecmpUnit with
          | .qp => qpId
          | .flow => if net.symmetricRouting then sport ||| dport else sport ||| (dport <<< 16)
        let idx := (ecmpHash (addresses ++ [last]) (UInt32.ofNat currNode)).toNat
        let idx := idx % (nexthops.length + net.loadImbalanceTh)
        let idx := if nexthops.length ≤ idx then 0 else idx
        let currIdx := nexthops.getD (idx % nexthops.length) 0
        match room with
        | 0 => none
        | room + 1 => do
          let tag ← enqueueRouting tag currNode currIdx
          calcuHops net sip dip sport dport qpId room currNode currIdx tag

/-- `RdmaHw::CalcuAllRoutingHops`; `none` is an assert. -/
def calcuAllRoutingHops (net : Network) (currNode currIdx : ℕ) (sip dip sport dport qpId : UInt32) :
    Option RoutingTag :=
  calcuHops net sip dip sport dport qpId maxHop currNode currIdx ⟨0, []⟩

end Route

end Pyrrha

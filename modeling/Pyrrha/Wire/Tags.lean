import Pyrrha.Floodgate.Data
import Pyrrha.Wire.Headers

/-!
The packet tags: what each class writes to its `TagBuffer` and what it reads back. The flags,
credits and sequence numbers of all protocols of this repository travel in these tags.
-/

namespace Pyrrha
open Lib Lib.Reader

namespace Wire

/-- The settings the sizes of tags depend on. The arrays of a tag have an index for each of at most
`NODESCALE` hosts. -/
structure TagConfig where
  hostNum : ℕ
  hostNum_le : hostNum ≤ nodeScale
  ackMode : Floodgate.AckMode

/-! ### Arrays -/

section Arrays
variable {ι β : Type} [DecidableEq ι]

def readArray (read : Reader β) (entries : List ι) (array : ι → β) : Reader (ι → β) :=
  entries.foldlM (fun array i => do
    let x ← read
    pure (Function.update array i x)) array

/-- The entries of an array are from `new`, the others stay. -/
def overwrite (entries : List ι) (new old : ι → β) (i : ι) : β :=
  if i ∈ entries then new i else old i

theorem overwrite_all {entries : List ι} (all : ∀ i, i ∈ entries) (new old : ι → β) :
    overwrite entries new old = new := by
  funext i
  exact if_pos (all i)

theorem foldl_overwrite (entries : List ι) (new old : ι → β) :
    entries.foldl (fun array i => Function.update array i (new i)) old =
      overwrite entries new old := by
  induction entries using List.reverseRecOn with
  | nil => rfl
  | append_singleton entries i ih =>
    rw [List.foldl_append, ih]
    funext j
    unfold overwrite
    by_cases here : j = i
    · subst here
      simp
    · simp [here]

theorem reads_array {read : Reader β} {write : β → List Byte} (each : ∀ x, Reads read (write x) x)
    (entries : List ι) (new old : ι → β) :
    Reads (readArray read entries old) (entries.flatMap fun i => write (new i))
      (overwrite entries new old) := by
  rw [← foldl_overwrite]
  unfold readArray
  refine reads_loop (fun array i rest => ?_) entries old
  rw [(each (new i)).bind, run_pure]

omit [DecidableEq ι] in
theorem length_array (entries : List ι) {write : ι → List Byte} {n : ℕ}
    (each : ∀ i, (write i).length = n) : (entries.flatMap write).length = entries.length * n := by
  induction entries with
  | nil => rw [List.flatMap_nil, List.length_nil, List.length_nil, Nat.zero_mul]
  | cons i entries ih => rw [List.flatMap_cons, List.length_append, ih, each, List.length_cons,
      Nat.succ_mul, Nat.add_comm]

end Arrays

theorem reads_u32 (x : BitVec 32) : Reads readU32 (writeU32 x) x := reads_le x (by decide)

theorem reads_u64 (x : BitVec 64) : Reads readU64 (writeU64 x) x := reads_le x (by decide)

theorem reads_u8 (x : BitVec 8) : Reads readU8 (writeU8 x) x := reads_le x (by decide)

/-- The words of two arrays, entry by entry. -/
def writePair {w : ℕ} (write : BitVec w → List Byte) (x : BitVec w × BitVec w) : List Byte :=
  write x.1 ++ write x.2

def readPair {w : ℕ} (read : Reader (BitVec w)) : Reader (BitVec w × BitVec w) := do
  let first ← read
  let second ← read
  pure (first, second)

theorem reads_pair {w : ℕ} {read : Reader (BitVec w)} {write : BitVec w → List Byte}
    (each : ∀ x, Reads read (write x) x)
    (x : BitVec w × BitVec w) : Reads (readPair read) (writePair write x) x := by
  intro rest
  rw [readPair, writePair, List.append_assoc, (each x.1).bind, (each x.2).bind, run_pure]

/-! ### Tags of several fields -/

/-- `Settings::MAXHOP`; `maxHop` is that of `IntHeader` here. -/
def routingHops : ℕ := Pyrrha.maxHop

/-- `MAX_HOP`. -/
def leafHops : ℕ := 5

structure CITag where
  rootSwitch : BitVec 32
  rootPort : BitVec 32
  oldSwitch : BitVec 32
  oldPort : BitVec 32
  hop : BitVec 16
  type : BitVec 8

namespace CITag

def serialize (t : CITag) : List Byte :=
  writeU32 t.rootSwitch ++ (writeU32 t.rootPort ++ (writeU32 t.oldSwitch ++ (writeU32 t.oldPort ++
    (writeU16 t.hop ++ writeU8 t.type))))

def deserialize : Reader CITag := do
  let rootSwitch ← readU32
  let rootPort ← readU32
  let oldSwitch ← readU32
  let oldPort ← readU32
  let hop ← readU16
  let type ← readU8
  pure ⟨rootSwitch, rootPort, oldSwitch, oldPort, hop, type⟩

theorem deserialize_reads (t : CITag) : Reads deserialize t.serialize t := by
  intro rest
  simp only [deserialize, serialize, List.append_assoc, readU32_bind, readU16_bind,
    (reads_u8 _).bind]
  rw [run_pure]

end CITag

/-- The switch and the port of each hop are in two arrays. -/
structure RoutingTag where
  currHop : BitVec 32
  cnt : BitVec 32
  routing : Fin routingHops → BitVec 32 × BitVec 32

namespace RoutingTag

def serialize (t : RoutingTag) : List Byte :=
  writeU32 t.currHop ++ (writeU32 t.cnt ++
    (List.finRange routingHops).flatMap fun k => writePair writeU32 (t.routing k))

def deserialize (old : RoutingTag) : Reader RoutingTag := do
  let currHop ← readU32
  let cnt ← readU32
  let routing ← readArray (readPair readU32) (List.finRange routingHops) old.routing
  pure ⟨currHop, cnt, routing⟩

theorem deserialize_reads (old t : RoutingTag) : Reads old.deserialize t.serialize t := by
  intro rest
  have hops := reads_array (reads_pair reads_u32) (List.finRange routingHops) t.routing old.routing
  simp only [deserialize, serialize, List.append_assoc, readU32_bind, hops.bind,
    overwrite_all List.mem_finRange]
  rw [run_pure]

end RoutingTag

structure QueueingTag where
  cnt : BitVec 64
  lastEnqueue : BitVec 64
  history : Fin routingHops → BitVec 64

namespace QueueingTag

def serialize (t : QueueingTag) : List Byte :=
  writeU64 t.cnt ++ (writeU64 t.lastEnqueue ++ (List.finRange routingHops).flatMap fun k =>
    writeU64 (t.history k))

def deserialize (old : QueueingTag) : Reader QueueingTag := do
  let cnt ← readU64
  let lastEnqueue ← readU64
  let history ← readArray readU64 (List.finRange routingHops) old.history
  pure ⟨cnt, lastEnqueue, history⟩

theorem deserialize_reads (old t : QueueingTag) : Reads old.deserialize t.serialize t := by
  intro rest
  have hops := reads_array reads_u64 (List.finRange routingHops) t.history old.history
  simp only [deserialize, serialize, List.append_assoc, readU64_bind, hops.bind,
    overwrite_all List.mem_finRange]
  rw [run_pure]

end QueueingTag

structure QPTag where
  qpid : BitVec 32
  msgSeq : BitVec 32
  qpPSN : BitVec 32

namespace QPTag

def serialize (t : QPTag) : List Byte := writeU32 t.qpid ++ (writeU32 t.msgSeq ++ writeU32 t.qpPSN)

def deserialize : Reader QPTag := do
  let qpid ← readU32
  let msgSeq ← readU32
  let qpPSN ← readU32
  pure ⟨qpid, msgSeq, qpPSN⟩

theorem deserialize_reads (t : QPTag) : Reads deserialize t.serialize t := by
  intro rest
  simp only [deserialize, serialize, List.append_assoc, readU32_bind]
  rw [run_pure]

end QPTag

/-- `SwitchIngressPSNTag` and `SwitchPSNTag`. -/
structure PsnTag where
  psn : BitVec 64
  round : BitVec 32

namespace PsnTag

def serialize (t : PsnTag) : List Byte := writeU64 t.psn ++ writeU32 t.round

def deserialize : Reader PsnTag := do
  let psn ← readU64
  let round ← readU32
  pure ⟨psn, round⟩

theorem deserialize_reads (t : PsnTag) : Reads deserialize t.serialize t := by
  intro rest
  simp only [deserialize, serialize, List.append_assoc, readU64_bind, readU32_bind]
  rw [run_pure]

end PsnTag

/-- `SymmetricRoutingTag` and `RecordRoutingTag`. -/
structure LeafTag where
  index : BitVec 32
  ingress : Fin leafHops → BitVec 32

namespace LeafTag

def serialize (t : LeafTag) : List Byte :=
  writeU32 t.index ++ (List.finRange leafHops).flatMap fun i => writeU32 (t.ingress i)

def deserialize (old : LeafTag) : Reader LeafTag := do
  let index ← readU32
  let ingress ← readArray readU32 (List.finRange leafHops) old.ingress
  pure ⟨index, ingress⟩

theorem deserialize_reads (old t : LeafTag) : Reads old.deserialize t.serialize t := by
  intro rest
  have hops := reads_array reads_u32 (List.finRange leafHops) t.ingress old.ingress
  simp only [deserialize, serialize, List.append_assoc, readU32_bind, hops.bind,
    overwrite_all List.mem_finRange]
  rw [run_pure]

end LeafTag

/-! ### All tags -/

inductive TagClass where
  | blockMarkTag | ciTag | routingTag | schTag | nicRxTimeTag | upstreamTag | metaTag | queueingTag | uschTag | tokenTag
  | qpTag | switchIngressPsnTag | switchPsnTag | switchAckTag | switchSynTag | symmetricRoutingTag | recordRoutingTag
  | lastPacketTag | flowTag | cqTag | flowIdTag | rankTag
  deriving DecidableEq, Repr

namespace TagClass

/-- The fields of a tag. A `SwitchACKTag` has an acknowledged size by host, a `SwitchSYNTag` the
acknowledged size and that of the next data. -/
def Fields : TagClass → Type
  | .blockMarkTag | .upstreamTag | .uschTag | .tokenTag | .flowTag | .flowIdTag | .rankTag =>
      BitVec 32
  | .nicRxTimeTag => BitVec 64
  | .metaTag => BitVec 8
  | .schTag | .lastPacketTag | .cqTag => Unit
  | .ciTag => CITag
  | .routingTag => RoutingTag
  | .queueingTag => QueueingTag
  | .qpTag => QPTag
  | .switchIngressPsnTag | .switchPsnTag => PsnTag
  | .switchAckTag => ℕ → BitVec 64
  | .switchSynTag => ℕ → BitVec 64 × BitVec 64
  | .symmetricRoutingTag | .recordRoutingTag => LeafTag

/-- The entries of a `SwitchACKTag` that are on the wire. -/
def ackEntries (cfg : TagConfig) : List ℕ :=
  match cfg.ackMode with
  | .switchIngressCredit => List.range cfg.hostNum
  | .switchDstCredit | .hostPerPacketAck => [0]

/-- `GetSerializedSize`. -/
def serializedSize (cfg : TagConfig) : TagClass → ℕ
  | .blockMarkTag | .upstreamTag | .uschTag | .tokenTag | .flowTag | .flowIdTag | .rankTag => 4
  | .nicRxTimeTag => 8
  | .metaTag => 1
  | .schTag | .lastPacketTag | .cqTag => 0
  | .ciTag => 4 * 4 + 1 + 2
  | .routingTag => 4 * (2 + routingHops * 2)
  | .queueingTag => 8 * (routingHops + 2)
  | .qpTag => 4 * 3
  | .switchIngressPsnTag | .switchPsnTag => 4 + 8
  | .switchAckTag =>
    match cfg.ackMode with
    | .switchIngressCredit => cfg.hostNum * 8
    | .switchDstCredit | .hostPerPacketAck => 8
  | .switchSynTag => cfg.hostNum * 8 * 2
  | .symmetricRoutingTag | .recordRoutingTag => (leafHops + 1) * 4

def serialize (cfg : TagConfig) : (c : TagClass) → c.Fields → List Byte
  | .blockMarkTag, qid => writeU32 qid
  | .upstreamTag, upstreamQ => writeU32 upstreamQ
  | .uschTag, pktsize => writeU32 pktsize
  | .tokenTag, psn => writeU32 psn
  | .flowTag, index => writeU32 index
  | .flowIdTag, flowId => writeU32 flowId
  | .rankTag, rank => writeU32 rank
  | .nicRxTimeTag, nicRxT => writeU64 nicRxT
  | .metaTag, counterIncr => writeU8 counterIncr
  | .schTag, _ | .lastPacketTag, _ | .cqTag, _ => []
  | .ciTag, t => CITag.serialize t
  | .routingTag, t => RoutingTag.serialize t
  | .queueingTag, t => QueueingTag.serialize t
  | .qpTag, t => QPTag.serialize t
  | .switchIngressPsnTag, t | .switchPsnTag, t => PsnTag.serialize t
  | .switchAckTag, ackedSize => (ackEntries cfg).flatMap fun i => writeU64 (ackedSize i)
  | .switchSynTag, size => (List.range cfg.hostNum).flatMap fun i => writePair writeU64 (size i)
  | .symmetricRoutingTag, t | .recordRoutingTag, t => LeafTag.serialize t

/-- `Deserialize`, into a tag that has been created before. -/
def deserialize (cfg : TagConfig) : (c : TagClass) → c.Fields → Reader c.Fields
  | .blockMarkTag, _ | .upstreamTag, _ | .uschTag, _ | .tokenTag, _ | .flowTag, _ | .flowIdTag,
      _ | .rankTag, _ => readU32
  | .nicRxTimeTag, _ => readU64
  | .metaTag, _ => readU8
  | .schTag, t | .lastPacketTag, t | .cqTag, t => pure t
  | .ciTag, _ => CITag.deserialize
  | .routingTag, t => RoutingTag.deserialize t
  | .queueingTag, t => QueueingTag.deserialize t
  | .qpTag, _ => QPTag.deserialize
  | .switchIngressPsnTag, _ | .switchPsnTag, _ => PsnTag.deserialize
  | .switchAckTag, ackedSize => readArray readU64 (ackEntries cfg) ackedSize
  | .switchSynTag, size => readArray (readPair readU64) (List.range cfg.hostNum) size
  | .symmetricRoutingTag, t | .recordRoutingTag, t => LeafTag.deserialize t

/-- A tag after `new` has been read into it: the entries that are not on the wire stay. -/
def load (cfg : TagConfig) : (c : TagClass) → (old new : c.Fields) → c.Fields
  | .switchAckTag, old, new => overwrite (ackEntries cfg) new old
  | .switchSynTag, old, new => overwrite (List.range cfg.hostNum) new old
  | _, _, new => new

theorem deserialize_serialize (cfg : TagConfig) (c : TagClass) (old new : c.Fields) :
    Reads (c.deserialize cfg old) (c.serialize cfg new) (c.load cfg old new) := by
  cases c with
  | blockMarkTag | upstreamTag | uschTag | tokenTag | flowTag | flowIdTag | rankTag =>
      exact reads_u32 new
  | nicRxTimeTag => exact reads_u64 new
  | metaTag => exact reads_u8 new
  | schTag | lastPacketTag | cqTag => exact fun _ => rfl
  | ciTag => exact CITag.deserialize_reads new
  | routingTag => exact RoutingTag.deserialize_reads old new
  | queueingTag => exact QueueingTag.deserialize_reads old new
  | qpTag => exact QPTag.deserialize_reads new
  | switchIngressPsnTag | switchPsnTag => exact PsnTag.deserialize_reads new
  | switchAckTag => exact reads_array reads_u64 _ new old
  | switchSynTag => exact reads_array (reads_pair reads_u64) _ new old
  | symmetricRoutingTag | recordRoutingTag => exact LeafTag.deserialize_reads old new

theorem length_serialize (cfg : TagConfig) (c : TagClass) (t : c.Fields) :
    (c.serialize cfg t).length = c.serializedSize cfg := by
  cases c with
  | blockMarkTag | upstreamTag | uschTag | tokenTag | flowTag | flowIdTag | rankTag =>
      exact length_writeU32 t
  | nicRxTimeTag => exact length_writeU64 t
  | metaTag => exact length_writeU8 t
  | schTag | lastPacketTag | cqTag => rfl
  | ciTag => simp [serialize, CITag.serialize, serializedSize]
  | qpTag => simp [serialize, QPTag.serialize, serializedSize]
  | switchIngressPsnTag | switchPsnTag => simp [serialize, PsnTag.serialize, serializedSize]
  | routingTag => simp [serialize, RoutingTag.serialize, serializedSize, writePair, routingHops,
      Pyrrha.maxHop]
  | queueingTag => simp [serialize, QueueingTag.serialize, serializedSize, routingHops,
      Pyrrha.maxHop]
  | switchAckTag =>
    refine (length_array (ackEntries cfg) fun i => length_writeU64 _).trans ?_
    unfold ackEntries serializedSize
    cases cfg.ackMode with
    | switchIngressCredit => rw [List.length_range]
    | switchDstCredit | hostPerPacketAck => rfl
  | switchSynTag =>
    refine (@length_array _ (List.range cfg.hostNum) (fun i => writePair writeU64 (t i)) 16
      fun i => by simp [writePair]).trans ?_
    rw [List.length_range, serializedSize]
    omega
  | symmetricRoutingTag | recordRoutingTag =>
      simp [serialize, LeafTag.serialize, serializedSize, leafHops]

end TagClass

end Wire

end Pyrrha

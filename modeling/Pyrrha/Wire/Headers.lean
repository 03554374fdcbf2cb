import Mathlib.Data.List.FinRange
import Pyrrha.Lib.Update
import Pyrrha.Lib.Wire

/-!
What the header classes write: `Buffer::Iterator`, `IntHeader`, `PppHeader`, `Ipv4Header`,
`UdpHeader`, `SeqTsHeader`, `qbbHeader`, `sackHeader`, `CnHeader` and `PauseHeader`.
-/

namespace Pyrrha
open Lib Lib.Reader

namespace Wire

/-! ### `Buffer::Iterator` -/

def writeU8 (x : BitVec 8) : List Byte := leBytes 1 x
def writeU16 (x : BitVec 16) : List Byte := leBytes 2 x
def writeU32 (x : BitVec 32) : List Byte := leBytes 4 x
def writeU64 (x : BitVec 64) : List Byte := leBytes 8 x
def writeHtonU16 (x : BitVec 16) : List Byte := beBytes 2 x
def writeHtonU32 (x : BitVec 32) : List Byte := beBytes 4 x

def readU8 : Reader (BitVec 8) := le 8 1
def readU16 : Reader (BitVec 16) := le 16 2
def readU32 : Reader (BitVec 32) := le 32 4
def readU64 : Reader (BitVec 64) := le 64 8
def readNtohU16 : Reader (BitVec 16) := be 16 2
def readNtohU32 : Reader (BitVec 32) := be 32 4

@[simp] theorem length_writeU8 (x : BitVec 8) : (writeU8 x).length = 1 := length_leBytes 1 x
@[simp] theorem length_writeU16 (x : BitVec 16) : (writeU16 x).length = 2 := length_leBytes 2 x
@[simp] theorem length_writeU32 (x : BitVec 32) : (writeU32 x).length = 4 := length_leBytes 4 x
@[simp] theorem length_writeU64 (x : BitVec 64) : (writeU64 x).length = 8 := length_leBytes 8 x
@[simp] theorem length_writeHtonU16 (x : BitVec 16) : (writeHtonU16 x).length = 2 :=
  length_beBytes 2 x
@[simp] theorem length_writeHtonU32 (x : BitVec 32) : (writeHtonU32 x).length = 4 :=
  length_beBytes 4 x

section Reads
variable {β : Type} (rest : List Byte)

theorem readU8_bind (x : BitVec 8) (f : BitVec 8 → Reader β) :
    (readU8 >>= f) (writeU8 x ++ rest) = f x rest :=
  (reads_le x (by decide)).bind f rest

theorem lookU8_bind (x : BitVec 8) (f : BitVec 8 → Reader β) :
    (look readU8 >>= f) (writeU8 x ++ rest) = f x (writeU8 x ++ rest) :=
  reads_look (reads_le x (by decide)) f rest

theorem readU16_bind (x : BitVec 16) (f : BitVec 16 → Reader β) :
    (readU16 >>= f) (writeU16 x ++ rest) = f x rest :=
  (reads_le x (by decide)).bind f rest

theorem readU32_bind (x : BitVec 32) (f : BitVec 32 → Reader β) :
    (readU32 >>= f) (writeU32 x ++ rest) = f x rest :=
  (reads_le x (by decide)).bind f rest

theorem readU64_bind (x : BitVec 64) (f : BitVec 64 → Reader β) :
    (readU64 >>= f) (writeU64 x ++ rest) = f x rest :=
  (reads_le x (by decide)).bind f rest

theorem readNtohU16_bind (x : BitVec 16) (f : BitVec 16 → Reader β) :
    (readNtohU16 >>= f) (writeHtonU16 x ++ rest) = f x rest :=
  (reads_be x (by decide)).bind f rest

theorem readNtohU32_bind (x : BitVec 32) (f : BitVec 32 → Reader β) :
    (readNtohU32 >>= f) (writeHtonU32 x ++ rest) = f x rest :=
  (reads_be x (by decide)).bind f rest

end Reads

/-! ### `IntHeader` -/

/-- `IntHeader::mode`: 0, 1, 2, and any other value, with which no byte is written. -/
inductive IntMode where
  | int | ts | delay | other
  deriving DecidableEq, Repr

/-- `IntHop::buf`. -/
structure IntHop where
  buf0 : BitVec 32 := 0#32
  buf1 : BitVec 32 := 0#32

abbrev maxHop : ℕ := 5

structure IntStack where
  hop : Fin maxHop → IntHop := fun _ => {}
  nhop : BitVec 16 := 0#16

structure IntDelay where
  hopCnt : BitVec 8 := 0#8
  remoteDelay : BitVec 32 := 0#32
  sendTs : BitVec 64 := 0#64

/-- The member of `IntHeader` that is used: the mode is set before the run. -/
def IntHeader : IntMode → Type
  | .int => IntStack
  | .ts => BitVec 64
  | .delay => IntDelay
  | .other => Unit

namespace IntHeader

def new : (mode : IntMode) → IntHeader mode
  | .int => ({} : IntStack)
  | .ts => 0#64
  | .delay => ({} : IntDelay)
  | .other => ()

def getStaticSize : IntMode → ℕ
  | .int => 5 * 8 + 2
  | .ts => 8
  | .delay => 8 + 4 + 1
  | .other => 0

def writeHop (hop : Fin maxHop → IntHop) (j : Fin maxHop) : List Byte :=
  writeU32 (hop j).buf0 ++ writeU32 (hop j).buf1

def serialize : (mode : IntMode) → IntHeader mode → List Byte
  | .int, (ih : IntStack) => (List.finRange maxHop).flatMap (writeHop ih.hop) ++ writeU16 ih.nhop
  | .ts, (ts : BitVec 64) => writeU64 ts
  | .delay, (ih : IntDelay) => writeU8 ih.hopCnt ++ writeU32 ih.remoteDelay ++ writeU64 ih.sendTs
  | .other, _ => []

def readHop (hop : Fin maxHop → IntHop) (j : Fin maxHop) : Reader (Fin maxHop → IntHop) := do
  let buf0 ← readU32
  let buf1 ← readU32
  pure (Function.update hop j ⟨buf0, buf1⟩)

def deserialize : (mode : IntMode) → IntHeader mode → Reader (IntHeader mode)
  | .int, (ih : IntStack) => do
    let hop ← (List.finRange maxHop).foldlM readHop ih.hop
    let nhop ← readU16
    pure ({ hop := hop, nhop := nhop } : IntStack)
  | .ts, _ => readU64
  | .delay, _ => do
    let hopCnt ← readU8
    let remoteDelay ← readU32
    let sendTs ← readU64
    pure ({ hopCnt := hopCnt, remoteDelay := remoteDelay, sendTs := sendTs } : IntDelay)
  | .other, ih => pure ih

theorem length_serialize (mode : IntMode) (ih : IntHeader mode) :
    (serialize mode ih).length = getStaticSize mode := by
  cases mode with
  | int => simp [serialize, getStaticSize, writeHop, maxHop]
  | ts => exact length_writeU64 _
  | delay => simp [serialize, getStaticSize]
  | other => rfl

theorem readHop_reads (hop hop' : Fin maxHop → IntHop) (j : Fin maxHop) :
    Reads (readHop hop' j) (writeHop hop j) (Function.update hop' j (hop j)) := by
  intro rest
  simp only [readHop, writeHop, List.append_assoc, readU32_bind, run_pure]

theorem deserialize_reads (mode : IntMode) (ih old : IntHeader mode) :
    Reads (deserialize mode old) (serialize mode ih) ih := by
  intro rest
  cases mode with
  | int =>
    have hops :
      (List.finRange maxHop).foldl (fun hop j => Function.update hop j ((ih : IntStack).hop j))
        (old : IntStack).hop = (ih : IntStack).hop := by
      funext j
      exact foldl_update_mem (List.mem_finRange j)
    have loop := reads_loop (readHop_reads (ih : IntStack).hop) (List.finRange maxHop)
      (old : IntStack).hop
    rw [hops] at loop
    simp only [deserialize, serialize, List.append_assoc]
    rw [loop.bind, readU16_bind]
    rfl
  | ts => exact reads_le ih (by decide) rest
  | delay =>
    simp only [deserialize, serialize, List.append_assoc, readU8_bind, readU32_bind, readU64_bind]
    rfl
  | other => rfl

end IntHeader

/-! ### The layers below L4 -/

structure PppHeader where
  protocol : BitVec 16

/-- The protocol, the rest of an Ethernet header and 24 bytes for the wire. -/
def PppHeader.serialize (h : PppHeader) : List Byte :=
  writeHtonU16 h.protocol ++ writeU64 0#64 ++ writeU32 0#32 ++
    (List.range 6).flatMap (fun _ => writeU32 0#32)

/-- `Ipv4Header` and its `m_calcChecksum`. -/
structure Ipv4Header where
  payloadSize : BitVec 16
  identification : BitVec 16
  tos : BitVec 8
  ttl : BitVec 8
  protocol : BitVec 8
  flags : BitVec 3
  fragmentOffset : BitVec 16
  source : BitVec 32
  destination : BitVec 32
  calcChecksum : Bool := false

def DONT_FRAGMENT : BitVec 3 := 1#3
def MORE_FRAGMENTS : BitVec 3 := 2#3

/-- The byte with the two flags and the high bits of the fragment offset, which counts in units of 8
bytes. -/
def flagsFrag (flags : BitVec 3) (fragmentOffset : BitVec 32) : BitVec 8 :=
  ((fragmentOffset >>> 8).setWidth 8 &&& 0x1f#8)
    ||| (if flags &&& DONT_FRAGMENT ≠ 0#3 then 1#8 <<< 6 else 0#8)
    ||| (if flags &&& MORE_FRAGMENTS ≠ 0#3 then 1#8 <<< 5 else 0#8)

namespace Ipv4Header

/-- `m_fragmentOffset / 8`. -/
def fragment (h : Ipv4Header) : BitVec 32 := (h.fragmentOffset / 8#16).setWidth 32

def beforeChecksum (h : Ipv4Header) : List Byte :=
  writeU8 (4#8 <<< 4 ||| 5#8) ++ writeU8 h.tos ++ writeHtonU16 (h.payloadSize + 20#16) ++
    writeHtonU16 h.identification
    ++ writeU8 (flagsFrag h.flags h.fragment) ++ writeU8 (h.fragment.setWidth 8) ++ writeU8 h.ttl ++
      writeU8 h.protocol

def afterChecksum (h : Ipv4Header) : List Byte :=
  writeHtonU32 h.source ++ writeHtonU32 h.destination

/-- `sum` is `CalculateIpChecksum`. -/
def checksum (sum : List Byte → BitVec 16) (h : Ipv4Header) : BitVec 16 :=
  if h.calcChecksum then sum (h.beforeChecksum ++ writeHtonU16 0#16 ++ h.afterChecksum) else 0#16

/-- The checksum is written over the two bytes that are 0 while it is computed. -/
def serialize (sum : List Byte → BitVec 16) (h : Ipv4Header) : List Byte :=
  h.beforeChecksum ++ writeU16 (h.checksum sum) ++ h.afterChecksum

end Ipv4Header

theorem PppHeader.length_serialize (h : PppHeader) : h.serialize.length = 38 := by
  simp [PppHeader.serialize]

theorem Ipv4Header.length_serialize (sum : List Byte → BitVec 16) (h : Ipv4Header) :
    (h.serialize sum).length = 20 := by
  simp [serialize, beforeChecksum, afterChecksum]

/-! ### L4 -/

variable {mode : IntMode}

/-- `UdpHeader`; `checksum` is what it writes for `m_calcChecksum`, and 0 without it. -/
structure UdpHeader where
  sourcePort : BitVec 16
  destinationPort : BitVec 16
  checksum : BitVec 16

/-- `size` is `start.GetSize ()`: the header with all that follows it. -/
def UdpHeader.serialize (h : UdpHeader) (size : ℕ) : List Byte :=
  writeHtonU16 h.sourcePort ++ writeHtonU16 h.destinationPort ++ writeHtonU16 (BitVec.ofNat 16 size)
    ++ writeU16 h.checksum

structure SeqTsHeader (mode : IntMode) where
  seq : BitVec 32
  size : BitVec 32
  pg : BitVec 16
  ih : IntHeader mode

def SeqTsHeader.serialize (h : SeqTsHeader mode) : List Byte :=
  writeHtonU32 h.seq ++ writeHtonU32 h.size ++ writeHtonU16 h.pg ++ h.ih.serialize

structure QbbHeader (mode : IntMode) where
  sport : BitVec 16
  dport : BitVec 16
  flags : BitVec 16
  pg : BitVec 16
  seq : BitVec 32
  ih : IntHeader mode

def QbbHeader.serialize (h : QbbHeader mode) : List Byte :=
  writeU16 h.sport ++ writeU16 h.dport ++ writeU16 h.flags ++ writeU16 h.pg ++ writeU32 h.seq ++
    h.ih.serialize

structure SackHeader (mode : IntMode) where
  sport : BitVec 16
  dport : BitVec 16
  flags : BitVec 16
  pg : BitVec 16
  irnAckSeq : BitVec 32
  irnNackSeq : BitVec 32
  ih : IntHeader mode

def SackHeader.serialize (h : SackHeader mode) : List Byte :=
  writeU16 h.sport ++ writeU16 h.dport ++ writeU16 h.flags ++ writeU16 h.pg ++ writeU32 h.irnAckSeq
    ++ writeU32 h.irnNackSeq ++ h.ih.serialize

structure CnHeader where
  fid : BitVec 16
  qIndex : BitVec 8
  ecnBits : BitVec 8
  qfb : BitVec 16
  total : BitVec 16

def CnHeader.serialize (h : CnHeader) : List Byte :=
  writeU8 h.qIndex ++ writeU16 h.fid ++ writeU8 h.ecnBits ++ writeU16 h.qfb ++ writeU16 h.total

structure PauseHeader where
  time : BitVec 32
  qlen : BitVec 32
  qindex : BitVec 32

def PauseHeader.serialize (h : PauseHeader) : List Byte :=
  writeU32 h.time ++ writeU32 h.qlen ++ writeU32 h.qindex

end Wire
end Pyrrha

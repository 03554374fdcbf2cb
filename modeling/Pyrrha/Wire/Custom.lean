import Pyrrha.Wire.Headers

/-! `CustomHeader`: all layers of a packet in one class, with its own writer and its own parser. -/

namespace Pyrrha
open Lib Lib.Reader

namespace Wire

/-! ### `ProtTypeE` and the union of the L4 members -/

namespace ProtTypeE
def TCP : BitVec 8 := 0x6#8
def UDP : BitVec 8 := 0x11#8
def SACK : BitVec 8 := 0x12#8
def REQ : BitVec 8 := 0xF7#8
def TOKEN_ACK : BitVec 8 := 0xF8#8
def TOKEN : BitVec 8 := 0xF9#8
def ACK : BitVec 8 := 0xFC#8
def NACK : BitVec 8 := 0xFD#8
def PFC : BitVec 8 := 0xFE#8
def QCN : BitVec 8 := 0xFF#8
end ProtTypeE

inductive Member where
  | tcp | udp | cnp | sack | ack | tkn | req | pfc
  deriving DecidableEq, Repr

/-- The member of the union that goes with a protocol; the others have no L4 header. -/
def l4Member (l3Prot : BitVec 8) : Option Member :=
  if l3Prot = ProtTypeE.TCP then some .tcp
  else if l3Prot = ProtTypeE.UDP then some .udp
  else if l3Prot = ProtTypeE.QCN then some .cnp
  else if l3Prot = ProtTypeE.ACK ∨ l3Prot = ProtTypeE.NACK then some .ack
  else if l3Prot = ProtTypeE.TOKEN ∨ l3Prot = ProtTypeE.TOKEN_ACK then some .tkn
  else if l3Prot = ProtTypeE.REQ then some .req
  else if l3Prot = ProtTypeE.PFC then some .pfc
  else if l3Prot = ProtTypeE.SACK then some .sack
  else none

structure TcpFields where
  sport : BitVec 16
  dport : BitVec 16
  seq : BitVec 32
  ack : BitVec 32
  length : BitVec 8
  tcpFlags : BitVec 8
  windowSize : BitVec 16
  urgentPointer : BitVec 16
  optionBuf : Fin 32 → Byte

structure UdpFields (mode : IntMode) where
  sport : BitVec 16
  dport : BitVec 16
  payload_size : BitVec 16
  pg : BitVec 16
  size : BitVec 32
  seq : BitVec 32
  ih : IntHeader mode

/-- The struct of `req`, which has `total` where `qbbHeader` has its sequence number. -/
structure ReqFields (mode : IntMode) where
  sport : BitVec 16
  dport : BitVec 16
  flags : BitVec 16
  pg : BitVec 16
  total : BitVec 32
  ih : IntHeader mode

structure PfcFields where
  time : BitVec 32
  qlen : BitVec 32
  qIndex : BitVec 32

/-- The structs of `ack` and `tkn` have the fields of `qbbHeader`, that of `sack` those of
`sackHeader` and that of `cnp` those of `CnHeader`. -/
def Member.Fields (mode : IntMode) : Member → Type
  | .tcp => TcpFields
  | .udp => UdpFields mode
  | .cnp => CnHeader
  | .sack => SackHeader mode
  | .ack => QbbHeader mode
  | .tkn => QbbHeader mode
  | .req => ReqFields mode
  | .pfc => PfcFields

/-! ### `CustomHeader` -/

def L2_Header : BitVec 32 := 1#32
def L3_Header : BitVec 32 := 2#32
def L4_Header : BitVec 32 := 4#32

structure CustomHeader (mode : IntMode) where
  brief : Bool := true
  headerType : BitVec 32 := L3_Header ||| L4_Header
  getInt : Bool := true
  pppProto : BitVec 16 := 0#16
  payloadSize : BitVec 16 := 0#16
  ipid : BitVec 16 := 0#16
  tos : BitVec 8 := 0#8
  ttl : BitVec 8 := 0#8
  l3Prot : BitVec 8 := 0#8
  ipv4Flags : BitVec 3 := 0#3
  fragmentOffset : BitVec 16 := 0#16
  sip : BitVec 32
  dip : BitVec 32
  checksum : BitVec 16 := 0#16
  headerSize : BitVec 16 := 20#16
  l4 : Overlaid (Member.Fields mode)

variable {mode : IntMode}

/-- `(tcp.length - 5) * 4`, which wraps around below 5. -/
def TcpFields.optionLen (h : TcpFields) : ℕ := ((h.length.setWidth 32 - 5#32) * 4#32).toNat

namespace CustomHeader

def getAckSerializedSize (mode : IntMode) : ℕ := 2 + 2 + 2 + 2 + 4 + IntHeader.getStaticSize mode
def getSAckSerializedSize (mode : IntMode) : ℕ :=
  2 + 2 + 2 + 2 + 4 + 4 + IntHeader.getStaticSize mode
def getUdpHeaderSize (mode : IntMode) : ℕ := 8 + 4 + 2 + 4 + IntHeader.getStaticSize mode

def l4Size : (m : Member) → m.Fields mode → ℕ
  | .tcp, (h : TcpFields) => h.length.toNat * 4
  | .udp, _ => getUdpHeaderSize mode
  | .ack, _ | .tkn, _ | .req, _ => getAckSerializedSize mode
  | .cnp, _ => 8
  | .pfc, _ => 12
  | .sack, _ => getSAckSerializedSize mode

/-- `layout` says what the union reads as. -/
def getSerializedSize (layout : Layout (Member.Fields mode)) (h : CustomHeader mode) : ℕ :=
  (if h.headerType &&& L2_Header ≠ 0#32 then 38 else 0) +
    (if h.headerType &&& L3_Header ≠ 0#32 then 5 * 4 else 0)
    + if h.headerType &&& L4_Header ≠ 0#32 then
        match l4Member h.l3Prot with
        | some m => l4Size m (layout.read m h.l4)
        | none => 0
      else 0

/-! ### `Serialize` -/

def writeTcp (h : TcpFields) : List Byte :=
  writeHtonU16 h.sport ++ writeHtonU16 h.dport ++ writeHtonU32 h.seq ++ writeHtonU32 h.ack
    ++ writeHtonU16 (h.length.setWidth 16 <<< 12 ||| h.tcpFlags.setWidth 16) ++
      writeHtonU16 h.windowSize
    ++ writeHtonU16 0#16 ++ writeHtonU16 h.urgentPointer
    ++ if h.optionLen ≤ 32 then (List.ofFn h.optionBuf).take h.optionLen else []

def writeL4 : (m : Member) → m.Fields mode → List Byte
  | .tcp, (h : TcpFields) => writeTcp h
  | .udp, (h : UdpFields mode) =>
    writeHtonU16 h.sport ++ writeHtonU16 h.dport ++ writeHtonU16 h.payload_size ++ writeHtonU16 0#16
      ++ writeHtonU32 h.seq ++ writeHtonU32 h.size ++ writeHtonU16 h.pg ++ h.ih.serialize
  | .cnp, (h : CnHeader) =>
    writeU8 h.qIndex ++ writeU16 h.fid ++ writeU8 h.ecnBits ++ writeU16 h.qfb ++ writeU16 h.total
  | .ack, (h : QbbHeader mode) | .tkn, (h : QbbHeader mode) =>
    writeU16 h.sport ++ writeU16 h.dport ++ writeU16 h.flags ++ writeU16 h.pg ++ writeU32 h.seq ++
      h.ih.serialize
  | .req, (h : ReqFields mode) =>
    writeU16 h.sport ++ writeU16 h.dport ++ writeU16 h.flags ++ writeU16 h.pg ++ writeU32 h.total ++
      h.ih.serialize
  | .pfc, (h : PfcFields) => writeU32 h.time ++ writeU32 h.qlen ++ writeU32 h.qIndex
  | .sack, (h : SackHeader mode) =>
    writeU16 h.sport ++ writeU16 h.dport ++ writeU16 h.flags ++ writeU16 h.pg ++
      writeU32 h.irnAckSeq ++ writeU32 h.irnNackSeq ++ h.ih.serialize

/-- The L2 and L3 blocks are those of `PppHeader` and of `Ipv4Header` without a checksum. -/
def ppp (h : CustomHeader mode) : PppHeader := { protocol := h.pppProto }

def ipv4 (h : CustomHeader mode) : Ipv4Header where
  payloadSize := h.payloadSize
  identification := h.ipid
  tos := h.tos
  ttl := h.ttl
  protocol := h.l3Prot
  flags := h.ipv4Flags
  fragmentOffset := h.fragmentOffset
  source := h.sip
  destination := h.dip

def serialize (layout : Layout (Member.Fields mode)) (h : CustomHeader mode) : List Byte :=
  (if h.headerType &&& L2_Header ≠ 0#32 then h.ppp.serialize else [])
    ++ (if h.headerType &&& L3_Header ≠ 0#32 then h.ipv4.serialize fun _ => 0#16 else [])
    ++ if h.headerType &&& L4_Header ≠ 0#32 then
        match l4Member h.l3Prot with
        | some m => writeL4 m (layout.read m h.l4)
        | none => []
      else []

/-! ### `Deserialize` -/

def readInt (getInt : Bool) (old : IntHeader mode) : Reader (IntHeader mode) :=
  if getInt then old.deserialize else pure old

/-- With `brief = 0`. The byte with the flags is read twice, with `i.Prev ()` in between. -/
def readIpv4 (h : CustomHeader mode) (headerSize : BitVec 16) : Reader (CustomHeader mode) := do
  let tos ← readU8
  let size ← readNtohU16
  let ipid ← readNtohU16
  let flags ← look readU8
  let high ← readU8
  let low ← readU8
  let ttl ← readU8
  let l3Prot ← readU8
  let checksum ← readU16
  let sip ← readNtohU32
  let dip ← readNtohU32
  pure { h with
    tos := tos
    payloadSize := size - headerSize
    ipid := ipid
    ipv4Flags := (if flags &&& (1#8 <<< 6) ≠ 0#8 then DONT_FRAGMENT else 0#3)
      ||| (if flags &&& (1#8 <<< 5) ≠ 0#8 then MORE_FRAGMENTS else 0#3)
    fragmentOffset := (((high &&& 0x1f#8).setWidth 16 <<< 8) ||| low.setWidth 16) <<< 3
    ttl := ttl
    l3Prot := l3Prot
    checksum := checksum
    sip := sip
    dip := dip
    headerSize := headerSize }

def readIpv4Brief (h : CustomHeader mode) : Reader (CustomHeader mode) := do
  let tos ← readU8
  skip 2
  let ipid ← readNtohU16
  skip 3
  let l3Prot ← readU8
  skip 2
  let sip ← readNtohU32
  let dip ← readNtohU32
  pure { h with tos := tos, ipid := ipid, l3Prot := l3Prot, sip := sip, dip := dip }

/-- The L3 block and `l3Size`; `none` when the version is not 4, with which `Deserialize` returns
0. -/
def readL3 (h : CustomHeader mode) : Reader (CustomHeader mode × Option ℕ) := do
  let verIhl ← readU8
  let headerSize := (verIhl &&& 0x0f#8).setWidth 16 * 4#16
  if verIhl >>> 4 ≠ 4#8 then
    pure (h, none)
  else if h.brief then
    let h ← readIpv4Brief h
    pure (h, some headerSize.toNat)
  else
    let h ← readIpv4 h headerSize
    pure (h, some headerSize.toNat)

/-- `old` is what the union reads as before; `none` when the options are discarded, with which `Deserialize` returns
20. -/
def readTcp (brief : Bool) (old : TcpFields) : Reader (TcpFields × Option ℕ) := do
  let sport ← readNtohU16
  let dport ← readNtohU16
  let seq ← readNtohU32
  let ack ← readNtohU32
  let field ← readNtohU16
  let tcpFlags := (field &&& 0x3F#16).setWidth 8
  if brief then
    pure ({ old with sport := sport, dport := dport, seq := seq, ack := ack, tcpFlags := tcpFlags },
      some (old.length.toNat * 4))
  else
    let windowSize ← readNtohU16
    skip 2
    let urgentPointer ← readNtohU16
    let tcp : TcpFields := {
      sport := sport
      dport := dport
      seq := seq
      ack := ack
      length := (field >>> 12).setWidth 8
      tcpFlags := tcpFlags
      windowSize := windowSize
      urgentPointer := urgentPointer
      optionBuf := old.optionBuf }
    if 32 < tcp.optionLen then
      pure (tcp, none)
    else
      let options ← take tcp.optionLen
      pure ({ tcp with optionBuf := fun k => options.getD k (old.optionBuf k) },
        some (tcp.length.toNat * 4))

def readPayloadSize (brief : Bool) (old : BitVec 16) : Reader (BitVec 16) :=
  if brief then do
    skip 4
    pure old
  else do
    let payload_size ← readNtohU16
    skip 2
    pure payload_size

def readUdp (brief getInt : Bool) (old : UdpFields mode) : Reader (UdpFields mode) := do
  let sport ← readNtohU16
  let dport ← readNtohU16
  let payload_size ← readPayloadSize brief old.payload_size
  let seq ← readNtohU32
  let size ← readNtohU32
  let pg ← readNtohU16
  let ih ← readInt getInt old.ih
  pure {
    sport := sport
    dport := dport
    payload_size := payload_size
    pg := pg
    size := size
    seq := seq
    ih := ih }

def readCnp : Reader CnHeader := do
  let qIndex ← readU8
  let fid ← readU16
  let ecnBits ← readU8
  let qfb ← readU16
  let total ← readU16
  pure { fid := fid, qIndex := qIndex, ecnBits := ecnBits, qfb := qfb, total := total }

def readQbb (getInt : Bool) (old : QbbHeader mode) : Reader (QbbHeader mode) := do
  let sport ← readU16
  let dport ← readU16
  let flags ← readU16
  let pg ← readU16
  let seq ← readU32
  let ih ← readInt getInt old.ih
  pure { sport := sport, dport := dport, flags := flags, pg := pg, seq := seq, ih := ih }

def readReq (getInt : Bool) (old : ReqFields mode) : Reader (ReqFields mode) := do
  let sport ← readU16
  let dport ← readU16
  let flags ← readU16
  let pg ← readU16
  let total ← readU32
  let ih ← readInt getInt old.ih
  pure { sport := sport, dport := dport, flags := flags, pg := pg, total := total, ih := ih }

def readPfc : Reader PfcFields := do
  let time ← readU32
  let qlen ← readU32
  let qIndex ← readU32
  pure { time := time, qlen := qlen, qIndex := qIndex }

def readSack (getInt : Bool) (old : SackHeader mode) : Reader (SackHeader mode) := do
  let sport ← readU16
  let dport ← readU16
  let flags ← readU16
  let pg ← readU16
  let irnAckSeq ← readU32
  let irnNackSeq ← readU32
  let ih ← readInt getInt old.ih
  pure {
    sport := sport
    dport := dport
    flags := flags
    pg := pg
    irnAckSeq := irnAckSeq
    irnNackSeq := irnNackSeq
    ih := ih }

/-- `i = start; i.Next (lower)` stands before two of the members only. -/
def goTo (start : List Byte) (lower : ℕ) : Member → Reader Unit
  | .tcp | .udp => seek start lower
  | _ => pure ()

/-- A member of the union and the value `Deserialize` returns: the sizes so far, `lower`, and
`l4Size`, or 20 when TCP options are discarded. -/
def readMember (h : CustomHeader mode) (lower : ℕ) :
    (m : Member) → m.Fields mode → Reader (m.Fields mode × ℕ)
  | .tcp, (old : TcpFields) => do
    let read ← readTcp h.brief old
    pure (read.1, (read.2.map fun l4Size => lower + l4Size).getD 20)
  | .udp, (old : UdpFields mode) => do
    let udp ← readUdp h.brief h.getInt old
    pure (udp, lower + getUdpHeaderSize mode)
  | .cnp, _ => do
    let cnp ← readCnp
    pure (cnp, lower + 8)
  | .ack, (old : QbbHeader mode) | .tkn, (old : QbbHeader mode) => do
    let qbb ← readQbb h.getInt old
    pure (qbb, lower + getAckSerializedSize mode)
  | .req, (old : ReqFields mode) => do
    let req ← readReq h.getInt old
    pure (req, lower + getAckSerializedSize mode)
  | .pfc, _ => do
    let pfc ← readPfc
    pure (pfc, lower + 12)
  | .sack, (old : SackHeader mode) => do
    let sack ← readSack h.getInt old
    pure (sack, lower + getSAckSerializedSize mode)

def readL4 (layout : Layout (Member.Fields mode)) (start : List Byte) (lower : ℕ)
    (h : CustomHeader mode) : Reader (CustomHeader mode × ℕ) :=
  match l4Member h.l3Prot with
  | none => pure (h, lower)
  | some m => do
    goTo start lower m
    let read ← readMember h lower m (layout.read m h.l4)
    pure ({ h with l4 := ⟨m, read.1⟩ }, read.2)

/-- The L4 block, unless the version was not 4. -/
def readUpper (layout : Layout (Member.Fields mode)) (start : List Byte) (l2Size : ℕ)
    (h : CustomHeader mode) : Option ℕ → Reader (CustomHeader mode × ℕ)
  | none => pure (h, 0)
  | some l3Size =>
    if h.headerType &&& L4_Header ≠ 0#32 then readL4 layout start (l2Size + l3Size) h
    else pure (h, l2Size + l3Size)

/-- `Deserialize` into `h`: the header and the value it returns. -/
def deserialize (layout : Layout (Member.Fields mode)) (h : CustomHeader mode) (start : List Byte) :
    Option (CustomHeader mode × ℕ) :=
  StateT.run' (do
    let read2 ← readL2 h
    let read3 ← readBlock3 start read2.2 read2.1
    readUpper layout start read2.2 read3.1 read3.2) start
where
  readL2 (h : CustomHeader mode) : Reader (CustomHeader mode × ℕ) :=
    if h.headerType &&& L2_Header ≠ 0#32 then do
      let pppProto ← readNtohU16
      skip 36
      pure ({ h with pppProto := pppProto }, 38)
    else pure (h, 0)
  readBlock3 (start : List Byte) (l2Size : ℕ) (h : CustomHeader mode) :
    Reader (CustomHeader mode × Option ℕ) :=
    if h.headerType &&& L3_Header ≠ 0#32 then do
      seek start l2Size
      readL3 h
    else pure (h, some 0)

end CustomHeader
end Wire
end Pyrrha

import Pyrrha.Wire.Layers

/-! What `CustomHeader::Deserialize` recovers of a packet that the header classes wrote. -/

namespace Pyrrha
open Lib Lib.Reader

namespace Wire

variable {mode : IntMode}

/-- The packets that carry a `qbbHeader`. -/
inductive QbbType where
  | ack | nack | token | tokenAck | req
  deriving DecidableEq, Repr

def QbbType.protocol : QbbType → BitVec 8
  | .ack => ProtTypeE.ACK
  | .nack => ProtTypeE.NACK
  | .token => ProtTypeE.TOKEN
  | .tokenAck => ProtTypeE.TOKEN_ACK
  | .req => ProtTypeE.REQ

inductive Transport (mode : IntMode) where
  | udp (h : UdpHeader) (seqTs : SeqTsHeader mode)
  | qbb (type : QbbType) (h : QbbHeader mode)
  | sack (h : SackHeader mode)
  | cn (h : CnHeader)
  | pause (h : PauseHeader)

namespace Transport

def protocol : Transport mode → BitVec 8
  | .udp _ _ => ProtTypeE.UDP
  | .qbb type _ => type.protocol
  | .sack _ => ProtTypeE.SACK
  | .cn _ => ProtTypeE.QCN
  | .pause _ => ProtTypeE.PFC

/-- `size` is that of the payload. -/
def serialize (size : ℕ) : Transport mode → List Byte
  | .udp h seqTs => h.serialize (8 + (seqTs.serialize.length + size)) ++ seqTs.serialize
  | .qbb _ h => h.serialize
  | .sack h => h.serialize
  | .cn h => h.serialize
  | .pause h => h.serialize

def member : Transport mode → Member
  | .udp _ _ => .udp
  | .qbb .ack _ | .qbb .nack _ => .ack
  | .qbb .token _ | .qbb .tokenAck _ => .tkn
  | .qbb .req _ => .req
  | .sack _ => .sack
  | .cn _ => .cnp
  | .pause _ => .pfc

/-- The fields of the headers, as the member of the union has them; `payload_size` is what it has
for the length of UDP. -/
def fields (payload_size : BitVec 16) : (t : Transport mode) → t.member.Fields mode
  | .udp h seqTs => ({
      sport := h.sourcePort
      dport := h.destinationPort
      payload_size := payload_size
      pg := seqTs.pg
      size := seqTs.size
      seq := seqTs.seq
      ih := seqTs.ih } : UdpFields mode)
  | .qbb .ack h | .qbb .nack h | .qbb .token h | .qbb .tokenAck h => h
  | .qbb .req h => ({
      sport := h.sport
      dport := h.dport
      flags := h.flags
      pg := h.pg
      total := h.seq
      ih := h.ih } : ReqFields mode)
  | .sack h => h
  | .cn h => h
  | .pause h => ({ time := h.time, qlen := h.qlen, qIndex := h.qindex } : PfcFields)

theorem member_protocol (t : Transport mode) : l4Member t.protocol = some t.member := by
  cases t with
  | udp | sack | cn | pause => rfl
  | qbb type => cases type <;> rfl

end Transport

/-- A packet with the headers of `PppHeader`, `Ipv4Header` and a class of L4. -/
structure Packet (mode : IntMode) where
  ppp : PppHeader
  ip : Ipv4Header
  transport : Transport mode
  payload : List Byte
  agrees : ip.protocol = transport.protocol

namespace Packet

def headers (p : Packet mode) (sum : List Byte → BitVec 16) : List Byte :=
  p.ppp.serialize ++ (p.ip.serialize sum ++ p.transport.serialize p.payload.length)

def bytes (p : Packet mode) (sum : List Byte → BitVec 16) : List Byte := p.headers sum ++ p.payload

/-- The length that `UdpHeader` writes. -/
def udpLength (p : Packet mode) : BitVec 16 :=
  BitVec.ofNat 16 (p.transport.serialize p.payload.length ++ p.payload).length

end Packet

/-- `read` has what the headers of `p` carry; the length of UDP only when it is not read in
brief. -/
structure Recovers (p : Packet mode) (read : CustomHeader mode) : Prop where
  pppProto : read.pppProto = p.ppp.protocol
  l3Prot : read.l3Prot = p.ip.protocol
  sip : read.sip = p.ip.source
  dip : read.dip = p.ip.destination
  tos : read.tos = p.ip.tos
  ipid : read.ipid = p.ip.identification
  l4 : ∃ length, read.l4 = ⟨p.transport.member, p.transport.fields length⟩ ∧
    (read.brief = false → length = p.udpLength)

namespace CustomHeader

theorem length_transport (t : Transport mode) (size : ℕ) (length : BitVec 16) :
    (t.serialize size).length = l4Size t.member (t.fields length) := by
  cases t with
  | udp u seqTs =>
    simp [Transport.serialize, UdpHeader.serialize, SeqTsHeader.serialize,
      IntHeader.length_serialize, Transport.member, l4Size, getUdpHeaderSize]
    omega
  | qbb type q =>
    cases type <;>
    · simp [Transport.serialize, QbbHeader.serialize, IntHeader.length_serialize,
        Transport.member, l4Size, getAckSerializedSize]
      omega
  | sack q =>
    simp [Transport.serialize, SackHeader.serialize, IntHeader.length_serialize,
      Transport.member, l4Size, getSAckSerializedSize]
    omega
  | cn q => simp [Transport.serialize, CnHeader.serialize, Transport.member, l4Size]
  | pause q => simp [Transport.serialize, PauseHeader.serialize, Transport.member, l4Size]

/-- What a member keeps when nothing of it stands for the length of UDP. -/
theorem readMember_fields (h : CustomHeader mode) (t : Transport mode) (lower size : ℕ)
    (getInt : h.getInt = true) (old : t.member.Fields mode) :
    ∃ length, Reads (readMember h lower t.member old) (t.serialize size)
        (t.fields length, lower + l4Size t.member (t.fields length)) ∧
      (h.brief = false → length = BitVec.ofNat 16 ((t.serialize size).length + size)) := by
  cases t with
  | udp u seqTs =>
    have bytes : (Transport.udp u seqTs).serialize size = udpBytes
        ((Transport.udp u seqTs).fields (BitVec.ofNat 16 (8 + (seqTs.serialize.length + size))) :
          UdpFields mode)
        (writeU16 u.checksum) := by
      simp [Transport.serialize, UdpHeader.serialize, SeqTsHeader.serialize, udpBytes,
        Transport.fields]
    refine ⟨if h.brief then (old : UdpFields mode).payload_size
      else BitVec.ofNat 16 (8 + (seqTs.serialize.length + size)), ?_, ?_⟩
    · intro rest
      rw [bytes]
      simp only [readMember, Transport.member, getInt]
      exact (readUdp_reads h.brief _ old (length_writeU16 u.checksum)).bind _ rest
    · intro full
      have total : ((Transport.udp u seqTs).serialize size).length + size = 8 +
          (seqTs.serialize.length + size) := by
        simp [Transport.serialize, UdpHeader.serialize]
        omega
      rw [total, full]
      rfl
  | qbb type q =>
    refine ⟨BitVec.ofNat 16 (((Transport.qbb type q).serialize size).length + size), ?_,
      fun _ => rfl⟩
    intro rest
    cases type with
    | ack | nack | token | tokenAck =>
      simp only [readMember, Transport.member, getInt]
      exact (readQbb_reads q old).bind _ rest
    | req =>
      have req := readReq_reads ((Transport.qbb .req q).fields 0#16 : ReqFields mode) old
      simp only [readMember, Transport.member, getInt]
      exact req.bind _ rest
  | sack q =>
    refine ⟨BitVec.ofNat 16 (((Transport.sack q).serialize size).length + size), ?_, fun _ => rfl⟩
    intro rest
    simp only [readMember, Transport.member, getInt]
    exact (readSack_reads q old).bind _ rest
  | cn q =>
    refine ⟨BitVec.ofNat 16 (((Transport.cn q : Transport mode).serialize size).length + size), ?_,
      fun _ => rfl⟩
    intro rest
    exact (readCnp_reads q).bind _ rest
  | pause q =>
    refine ⟨BitVec.ofNat 16 (((Transport.pause q : Transport mode).serialize size).length + size),
      ?_, fun _ => rfl⟩
    intro rest
    exact (readPfc_reads ((Transport.pause q : Transport mode).fields 0#16)).bind _ rest

/-- A packet is parsed into what its headers carry, and the bytes counted are those of the
headers. -/
theorem deserialize_recovers (layout : Layout (Member.Fields mode)) (sum : List Byte → BitVec 16)
    (p : Packet mode) (h : CustomHeader mode) (all : AllLayers h) (getInt : h.getInt = true) :
    ∃ read, h.deserialize layout (p.bytes sum) = some (read, (p.headers sum).length) ∧
    Recovers p read ∧ read.getSerializedSize layout = (p.headers sum).length := by
  obtain ⟨type, brief, int, proto, -⟩ :=
    withIpv4_frame { h with pppProto := p.ppp.protocol } p.ip sum
  obtain ⟨tos, ipid, prot, sip, dip⟩ :=
    withIpv4_brief { h with pppProto := p.ppp.protocol } p.ip sum
  have member : l4Member (h.withLower p.ppp p.ip sum).l3Prot = some p.transport.member := by
    rw [withLower, prot, p.agrees, Transport.member_protocol]
  obtain ⟨length, reads, full⟩ :=
    readMember_fields (h.withLower p.ppp p.ip sum) p.transport 58 p.payload.length
    (int.trans getInt) (layout.read _ (h.withLower p.ppp p.ip sum).l4)
  have place : (p.ppp.serialize ++ p.ip.serialize sum).length = 58 := by
    rw [List.length_append, PppHeader.length_serialize, Ipv4Header.length_serialize]
  have upper := readL4_reads layout (h.withLower p.ppp p.ip sum) p.payload place reads member
  have bytes : p.bytes sum = p.ppp.serialize ++ (p.ip.serialize sum
      ++ (p.transport.serialize p.payload.length ++ p.payload)) := by
    simp only [Packet.bytes, Packet.headers, List.append_assoc]
  have size : (p.headers sum).length = 58 +
      l4Size p.transport.member (p.transport.fields length) := by
    rw [Packet.headers, ← List.append_assoc, List.length_append, place, length_transport _ _ length]
  refine ⟨{ h.withLower p.ppp p.ip sum with l4 := ⟨p.transport.member, p.transport.fields length⟩ },
    ?_, ⟨proto, prot, sip, dip, tos, ipid, length, rfl, ?_⟩, ?_⟩
  · rw [bytes, deserialize_layers layout h p.ppp p.ip sum _ all,
      ← List.append_assoc p.ppp.serialize, upper, size]
    rfl
  · intro notBrief
    rw [full notBrief, Packet.udpLength, List.length_append]
  · have types : (h.withLower p.ppp p.ip sum).headerType = L2_Header ||| L3_Header ||| L4_Header :=
      type.trans all
    simp only [getSerializedSize, types, member, Layout.read_self]
    rw [size]
    rfl

end CustomHeader
end Wire
end Pyrrha

import Pyrrha.Wire.Packets

/-! What `CustomHeader::Deserialize` gives back of a packet that `CustomHeader::Serialize` wrote,
and what is lost. -/

namespace Pyrrha
open Lib Lib.Reader

namespace Wire

variable {mode : IntMode}

/-- What is parsed of a member, except that options are cut to their length. -/
def SameMember : (m : Member) → m.Fields mode → m.Fields mode → Prop
  | .tcp, h, read => CustomHeader.SameTcp h read
  | .udp, h, read | .cnp, h, read | .sack, h, read | .ack, h, read | .tkn, h, read | .req, h, read
  | .pfc, h, read => read = h

/-- All that is parsed, but for the checksum. -/
structure SameFields (layout : Layout (Member.Fields mode)) (h read : CustomHeader mode) :
    Prop where
  pppProto : read.pppProto = h.pppProto
  payloadSize : read.payloadSize = h.payloadSize
  ipid : read.ipid = h.ipid
  tos : read.tos = h.tos
  ttl : read.ttl = h.ttl
  l3Prot : read.l3Prot = h.l3Prot
  ipv4Flags : read.ipv4Flags = h.ipv4Flags
  fragmentOffset : read.fragmentOffset = h.fragmentOffset
  sip : read.sip = h.sip
  dip : read.dip = h.dip
  headerSize : read.headerSize = h.headerSize
  l4 : ∀ m, l4Member h.l3Prot = some m → SameMember m (layout.read m h.l4) (layout.read m read.l4)

namespace CustomHeader

/-- `Deserialize` with `brief = 0` gives back what `Serialize` wrote, whatever it is read into. -/
def Returns (layout : Layout (Member.Fields mode)) (h : CustomHeader mode) : Prop :=
  ∀ (old : CustomHeader mode) (payload : List Byte), AllLayers old → old.brief = false →
    old.getInt = true →
    ∃ read size, old.deserialize layout (h.serialize layout ++ payload) = some (read, size) ∧
      SameFields layout h read

/-- What the bytes have room for: two flags, offsets in units of 8 bytes, no IPv4 options, and of
TCP 4 bits for the length and 6 for the flags. -/
structure Carried (layout : Layout (Member.Fields mode)) (h : CustomHeader mode) : Prop where
  ipv4Flags : h.ipv4Flags &&& (DONT_FRAGMENT ||| MORE_FRAGMENTS) = h.ipv4Flags
  fragmentOffset : 8 ∣ h.fragmentOffset.toNat
  headerSize : h.headerSize = 20#16
  tcp : h.l3Prot = ProtTypeE.TCP → TcpFits (layout.read .tcp h.l4)

theorem units_of_eight (offset : BitVec 16) : offset &&& 0xfff8#16 = offset ↔ 8 ∣ offset.toNat := by
  have units : offset &&& 0xfff8#16 = (offset >>> 3) <<< 3 := by
    apply BitVec.eq_of_getLsbD_eq
    intro i lt
    simp only [BitVec.getLsbD_and, BitVec.getLsbD_shiftLeft, BitVec.getLsbD_ushiftRight]
    interval_cases i <;> simp
  have small := offset.isLt
  rw [units, BitVec.toNat_eq, BitVec.toNat_shiftLeft, BitVec.toNat_ushiftRight, Nat.shiftLeft_eq,
    Nat.shiftRight_eq_div_pow]
  omega

theorem readMember_writeL4 (h : CustomHeader mode) (lower : ℕ) (m : Member)
    (written old : m.Fields mode) (full : h.brief = false) (getInt : h.getInt = true)
    (fits : ∀ tcp : m = .tcp, TcpFits (tcp ▸ written : Member.Fields mode .tcp)) :
    ∃ read size, Reads (readMember h lower m old) (writeL4 m written) (read, size) ∧
    SameMember m written read := by
  cases m with
  | tcp =>
    obtain ⟨read, size, reads, same⟩ := readTcp_reads written old (fits rfl)
    refine ⟨read, (size.map fun l4Size => lower + l4Size).getD 20, ?_, same⟩
    intro rest
    simp only [readMember, full]
    exact reads.bind _ rest
  | udp =>
    refine ⟨written, lower + getUdpHeaderSize mode, ?_, rfl⟩
    intro rest
    have reads := readUdp_reads false written old (length_writeHtonU16 0#16)
    simp only [readMember, full, getInt]
    exact reads.bind _ rest
  | cnp => exact ⟨written, lower + 8, fun rest => (readCnp_reads written).bind _ rest, rfl⟩
  | pfc => exact ⟨written, lower + 12, fun rest => (readPfc_reads written).bind _ rest, rfl⟩
  | ack | tkn =>
    refine ⟨written, lower + getAckSerializedSize mode, ?_, rfl⟩
    intro rest
    simp only [readMember, getInt]
    exact (readQbb_reads written old).bind _ rest
  | req =>
    refine ⟨written, lower + getAckSerializedSize mode, ?_, rfl⟩
    intro rest
    simp only [readMember, getInt]
    exact (readReq_reads written old).bind _ rest
  | sack =>
    refine ⟨written, lower + getSAckSerializedSize mode, ?_, rfl⟩
    intro rest
    simp only [readMember, getInt]
    exact (readSack_reads written old).bind _ rest

/-- The L4 block that `Serialize` writes. -/
def upper (layout : Layout (Member.Fields mode)) (h : CustomHeader mode) : List Byte :=
  match l4Member h.l3Prot with
  | some m => writeL4 m (layout.read m h.l4)
  | none => []

theorem serialize_layers (layout : Layout (Member.Fields mode)) (h : CustomHeader mode)
    (all : AllLayers h) (payload : List Byte) :
    h.serialize layout ++ payload =
      h.ppp.serialize ++ ((h.ipv4.serialize fun _ => 0#16) ++ (h.upper layout ++ payload)) := by
  have l2 : h.headerType &&& L2_Header ≠ 0#32 := by rw [all]; decide
  have l3 : h.headerType &&& L3_Header ≠ 0#32 := by rw [all]; decide
  have l4 : h.headerType &&& L4_Header ≠ 0#32 := by rw [all]; decide
  rw [serialize, if_pos l2, if_pos l3, if_pos l4, List.append_assoc, List.append_assoc]
  rfl

theorem withLower_full (old h : CustomHeader mode) (full : old.brief = false) :
    old.withLower h.ppp h.ipv4 (fun _ => 0#16) =
      { old with
        pppProto := h.pppProto
        tos := h.tos
        payloadSize := h.payloadSize
        ipid := h.ipid
        ipv4Flags := h.ipv4Flags &&& (DONT_FRAGMENT ||| MORE_FRAGMENTS)
        fragmentOffset := h.fragmentOffset &&& 0xfff8#16
        ttl := h.ttl
        l3Prot := h.l3Prot
        checksum := 0#16
        sip := h.sip
        dip := h.dip
        headerSize := 20#16 } := by
  simp only [withLower, withIpv4, full, Bool.false_eq_true, if_false]
  rfl

theorem deserialize_serialize (layout : Layout (Member.Fields mode)) (h old : CustomHeader mode)
    (payload : List Byte) (all : AllLayers h) (allOld : AllLayers old) :
    old.deserialize layout (h.serialize layout ++ payload) =
      (readL4 layout (h.ppp.serialize ++ (h.ipv4.serialize fun _ => 0#16) ++
        (h.upper layout ++ payload)) 58
        (old.withLower h.ppp h.ipv4 fun _ => 0#16) (h.upper layout ++ payload)).map Prod.fst := by
  rw [serialize_layers layout h all payload, deserialize_layers layout old h.ppp h.ipv4 _ _ allOld,
    List.append_assoc]

theorem l4Member_tcp {l3Prot : BitVec 8} (member : l4Member l3Prot = some .tcp) :
    l3Prot = ProtTypeE.TCP := by
  revert l3Prot
  decide +kernel

theorem returns_of_carried (layout : Layout (Member.Fields mode)) (h : CustomHeader mode)
    (all : AllLayers h) (carried : Carried layout h) : Returns layout h := by
  intro old payload allOld full getInt
  have lower := withLower_full old h full
  have place : (h.ppp.serialize ++ h.ipv4.serialize fun _ => 0#16).length = 58 := by
    rw [List.length_append, PppHeader.length_serialize, Ipv4Header.length_serialize]
  have flags := carried.ipv4Flags
  have offset := (units_of_eight h.fragmentOffset).mpr carried.fragmentOffset
  rw [deserialize_serialize layout h old payload all allOld, lower, flags, offset]
  cases member : l4Member h.l3Prot with
  | none =>
    have nothing : h.upper layout = [] := by simp only [upper, member]
    simp only [readL4, member, run_pure, Option.map_some]
    refine ⟨_, _, rfl, ⟨rfl, rfl, rfl, rfl, rfl, rfl, rfl, rfl, rfl, rfl,
      carried.headerSize.symm, ?_⟩⟩
    intro m some
    cases member.symm.trans some
  | some m =>
    have bytes : h.upper layout = writeL4 m (layout.read m h.l4) := by simp only [upper, member]
    have fits : ∀ tcp : m = .tcp, TcpFits (tcp ▸ layout.read m h.l4 : Member.Fields mode .tcp) := by
      intro tcp
      subst tcp
      exact carried.tcp (l4Member_tcp member)
    obtain ⟨read, size, reads, same⟩ :=
      readMember_writeL4 (old.withLower h.ppp h.ipv4 fun _ => 0#16) 58 m
      (layout.read m h.l4) (layout.read m old.l4) (by rw [lower]; exact full) (by rw [lower]; exact getInt) fits
    rw [lower, flags, offset] at reads
    rw [bytes, readL4_reads layout _ payload place reads member]
    refine ⟨_, _, rfl, ⟨rfl, rfl, rfl, rfl, rfl, rfl, rfl, rfl, rfl, rfl,
      carried.headerSize.symm, ?_⟩⟩
    intro m' some
    cases member.symm.trans some
    simpa using same

/-! ### Nothing else is carried -/

theorem readTcp_cuts {h old tcp : TcpFields} {size : Option ℕ} {rest rest' : List Byte}
    (read : readTcp false old (writeTcp h ++ rest) = some ((tcp, size), rest')) :
    tcp.length = h.length &&& 0xF#8 ∧ tcp.tcpFlags = h.tcpFlags &&& 0x3F#8 := by
  have skipped := reads_skip (length_writeHtonU16 0#16)
  simp only [readTcp, writeTcp, List.append_assoc, readNtohU16_bind, readNtohU32_bind,
    tcpField_flags, tcpField_length, Bool.false_eq_true, if_false, skipped.bind] at read
  split at read
  · cases read
    exact ⟨rfl, rfl⟩
  · obtain ⟨options, s', -, last⟩ := bind_eq_some read
    cases last
    exact ⟨rfl, rfl⟩

theorem readL4_frame {layout : Layout (Member.Fields mode)} {start s rest : List Byte} {n size : ℕ}
    {h read : CustomHeader mode} (reads : readL4 layout start n h s = some ((read, size), rest)) :
    ∃ l4, read = { h with l4 := l4 } := by
  cases member : l4Member h.l3Prot with
  | none =>
    simp only [readL4, member, run_pure] at reads
    cases reads
    exact ⟨h.l4, rfl⟩
  | some m =>
    simp only [readL4, member] at reads
    obtain ⟨_, _, -, next⟩ := bind_eq_some reads
    obtain ⟨_, _, -, last⟩ := bind_eq_some next
    cases last
    exact ⟨_, rfl⟩

theorem readL4_tcp {layout : Layout (Member.Fields mode)} {lower rest rest' : List Byte} {size : ℕ}
    {x read : CustomHeader mode} {h : TcpFields} (place : lower.length = 58)
    (reads : readL4 layout (lower ++ (writeTcp h ++ rest)) 58 x
      (writeTcp h ++ rest) = some ((read, size), rest'))
    (prot : x.l3Prot = ProtTypeE.TCP) (full : x.brief = false) :
    ((layout.read .tcp read.l4 : Member.Fields mode .tcp) : TcpFields).length = h.length &&& 0xF#8 ∧
    ((layout.read .tcp read.l4 : Member.Fields mode .tcp) : TcpFields).tcpFlags =
      h.tcpFlags &&& 0x3F#8 := by
  have member : l4Member x.l3Prot = some .tcp := by rw [prot]; rfl
  simp only [readL4, member, goTo, run_seek place] at reads
  obtain ⟨⟨tcp, _⟩, s', first, last⟩ := bind_eq_some reads
  cases last
  simp only [readMember, full] at first
  obtain ⟨⟨tcp', size'⟩, s'', inner, last⟩ := bind_eq_some first
  cases last
  rw [layout.read_self]
  exact readTcp_cuts inner

theorem carried_of_returns (layout : Layout (Member.Fields mode)) (h : CustomHeader mode)
    (all : AllLayers h) (returns : Returns layout h) : Carried layout h := by
  obtain ⟨read, size, parsed, same⟩ :=
    returns { h with brief := false, getInt := true } [] all rfl rfl
  have place : (h.ppp.serialize ++ h.ipv4.serialize fun _ => 0#16).length = 58 := by
    rw [List.length_append, PppHeader.length_serialize, Ipv4Header.length_serialize]
  rw [deserialize_serialize layout h { h with brief := false, getInt := true } [] all all,
    withLower_full _ h rfl] at parsed
  obtain ⟨⟨⟨read', size'⟩, rest⟩, reads, out⟩ := Option.map_eq_some_iff.mp parsed
  cases out
  obtain ⟨l4, is⟩ := readL4_frame reads
  have flags := same.ipv4Flags
  have offset := same.fragmentOffset
  have headerSize := same.headerSize
  rw [is] at flags offset headerSize
  refine ⟨flags, (units_of_eight _).mp offset, headerSize.symm, ?_⟩
  intro prot
  have member : l4Member h.l3Prot = some .tcp := by rw [prot]; rfl
  have bytes : h.upper layout = writeL4 .tcp (layout.read .tcp h.l4) := by simp only [upper, member]
  rw [bytes] at reads
  obtain ⟨length, tcpFlags⟩ := readL4_tcp place reads prot rfl
  have kept := (same.l4 .tcp member).fields
  rw [kept] at length tcpFlags
  exact ⟨(low_length _).mp length.symm, (low_flags _).mp tcpFlags.symm⟩

/-- `Deserialize` agrees with every class that writes, and with `Serialize` on what the bytes have
room for. -/
theorem one_wire_format (layout : Layout (Member.Fields mode)) (sum : List Byte → BitVec 16) :
    (∀ (p : Packet mode) (h : CustomHeader mode), AllLayers h → h.getInt = true →
      ∃ read, h.deserialize layout (p.bytes sum) = some (read, (p.headers sum).length) ∧
      Recovers p read ∧ read.getSerializedSize layout = (p.headers sum).length) ∧
    (∀ h : CustomHeader mode, AllLayers h → (Returns layout h ↔ Carried layout h)) := by
  constructor
  · intro p h all getInt
    exact deserialize_recovers layout sum p h all getInt
  · intro h all
    exact ⟨carried_of_returns layout h all, returns_of_carried layout h all⟩

/-! ### One header that is given back and four that are not -/

def noOptions : TcpFields where
  sport := 1#16
  dport := 2#16
  seq := 3#32
  ack := 4#32
  length := 5#8
  tcpFlags := 0#8
  windowSize := 6#16
  urgentPointer := 7#16
  optionBuf := fun _ => 0#8

def zeroMember : (m : Member) → m.Fields .int
  | .tcp => (⟨0, 0, 0, 0, 0, 0, 0, 0, fun _ => 0⟩ : TcpFields)
  | .udp => (⟨0, 0, 0, 0, 0, 0, IntHeader.new .int⟩ : UdpFields .int)
  | .cnp => (⟨0, 0, 0, 0, 0⟩ : CnHeader)
  | .sack => (⟨0, 0, 0, 0, 0, 0, IntHeader.new .int⟩ : SackHeader .int)
  | .ack | .tkn => (⟨0, 0, 0, 0, 0, IntHeader.new .int⟩ : QbbHeader .int)
  | .req => (⟨0, 0, 0, 0, 0, IntHeader.new .int⟩ : ReqFields .int)
  | .pfc => (⟨0, 0, 0⟩ : PfcFields)

def apart : Layout (Member.Fields .int) := Layout.apart zeroMember

def tcpHeader (tcp : TcpFields) : CustomHeader .int where
  brief := false
  headerType := L2_Header ||| L3_Header ||| L4_Header
  l3Prot := ProtTypeE.TCP
  sip := 8#32
  dip := 9#32
  l4 := ⟨.tcp, tcp⟩

def nackPacket : Packet .int where
  ppp := { protocol := 0x0021#16 }
  ip := {
    payloadSize := 54#16
    identification := 10#16
    tos := 3#8
    ttl := 64#8
    protocol := ProtTypeE.NACK
    flags := 0#3
    fragmentOffset := 0#16
    source := 8#32
    destination := 9#32 }
  transport := .qbb .nack ⟨1#16, 2#16, 1#16, 3#16, 4000#32, IntHeader.new .int⟩
  payload := []
  agrees := rfl

theorem one_wire_format_nack :
    (∃ read, (tcpHeader noOptions).deserialize apart (nackPacket.bytes fun _ => 0#16) =
      some (read, 112) ∧ Recovers nackPacket read) ∧ Returns apart (tcpHeader noOptions) := by
  have both := one_wire_format apart fun _ => 0#16
  have size : (nackPacket.headers fun _ => 0#16).length = 112 := by decide
  have carried : Carried apart (tcpHeader noOptions) :=
    ⟨by decide, by decide, rfl, fun _ => ⟨by decide, by decide⟩⟩
  constructor
  · obtain ⟨read, parsed, recovers, -⟩ := both.1 nackPacket (tcpHeader noOptions) rfl rfl
    rw [size] at parsed
    exact ⟨read, parsed, recovers⟩
  · exact (both.2 (tcpHeader noOptions) rfl).mpr carried

/-- A third flag, a header of 24 bytes, and a length and flags of TCP that take more than their
bits. -/
theorem not_returned :
    ¬Returns apart { tcpHeader noOptions with ipv4Flags := 4#3 } ∧
    ¬Returns apart { tcpHeader noOptions with headerSize := 24#16 } ∧
    ¬Returns apart (tcpHeader { noOptions with length := 16#8 }) ∧
    ¬Returns apart (tcpHeader { noOptions with tcpFlags := 64#8 }) := by
  refine ⟨?_, ?_, ?_, ?_⟩ <;> intro returns
  · exact absurd (carried_of_returns apart _ (by exact rfl) returns).ipv4Flags (by decide)
  · exact absurd (carried_of_returns apart _ (by exact rfl) returns).headerSize (by decide)
  · exact absurd ((carried_of_returns apart _ (by exact rfl) returns).tcp rfl).1 (by decide)
  · exact absurd ((carried_of_returns apart _ (by exact rfl) returns).tcp rfl).2 (by decide)

end CustomHeader
end Wire
end Pyrrha

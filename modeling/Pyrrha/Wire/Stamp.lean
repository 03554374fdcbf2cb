import Pyrrha.Wire.Packets

/-!
The remote delay that `QbbNetDevice::DequeueAndTransmit` puts into an acknowledgement: it takes the
three headers off, the last of them as a `qbbHeader`, and puts them on again.
-/

namespace Pyrrha
open Lib Lib.Reader

namespace Wire

/-! ### `Deserialize` of the header classes -/

def PppHeader.deserialize : Reader PppHeader := do
  let protocol ← readNtohU16
  skip 36
  pure { protocol := protocol }

/-- `Ipv4Header::Deserialize` with the size it returns; the version is asserted. -/
def Ipv4Header.deserialize : Reader (Ipv4Header × ℕ) := do
  let verIhl ← readU8
  let headerSize := (verIhl &&& 0x0f#8).setWidth 16 * 4#16
  if verIhl >>> 4 ≠ 4#8 then StateT.lift none
  else do
    let tos ← readU8
    let size ← readNtohU16
    let identification ← readNtohU16
    let flags ← look readU8
    let high ← readU8
    let low ← readU8
    let ttl ← readU8
    let protocol ← readU8
    let _ ← readU16
    let source ← readNtohU32
    let destination ← readNtohU32
    pure ({
      payloadSize := size - headerSize
      identification := identification
      tos := tos
      ttl := ttl
      protocol := protocol
      flags := (if flags &&& (1#8 <<< 6) ≠ 0#8 then DONT_FRAGMENT else 0#3)
        ||| (if flags &&& (1#8 <<< 5) ≠ 0#8 then MORE_FRAGMENTS else 0#3)
      fragmentOffset := (((high &&& 0x1f#8).setWidth 16 <<< 8) ||| low.setWidth 16) <<< 3
      source := source
      destination := destination }, headerSize.toNat)

variable {mode : IntMode}

def QbbHeader.deserialize (mode : IntMode) : Reader (QbbHeader mode) := do
  let sport ← readU16
  let dport ← readU16
  let flags ← readU16
  let pg ← readU16
  let seq ← readU32
  let ih ← IntHeader.deserialize mode (IntHeader.new mode)
  pure { sport := sport, dport := dport, flags := flags, pg := pg, seq := seq, ih := ih }

/-- `Packet::RemoveHeader` of an `Ipv4Header`: as many bytes as `Deserialize` returns. -/
def removeIpv4 : Reader Ipv4Header := do
  let start ← get
  let ip ← Ipv4Header.deserialize
  seek start ip.2
  pure ip.1

/-! ### The stamp -/

/-- `SetRemoteDelay`, with mode 2. -/
def IntDelay.setRemoteDelay (ih : IntDelay) (ts : BitVec 64) : IntDelay :=
  { ih with remoteDelay := ts.setWidth 32 }

def QbbHeader.setRemoteDelay (h : QbbHeader .delay) (ts : BitVec 64) : QbbHeader .delay :=
  { h with ih := IntDelay.setRemoteDelay h.ih ts }

/-- The three headers taken off, and put on again with the stamp. -/
def restamp (sum : List Byte → BitVec 16) (elapsed : BitVec 64) : Reader (List Byte) := do
  let ppp ← PppHeader.deserialize
  let ip ← removeIpv4
  let qbb ← QbbHeader.deserialize .delay
  let rest ← get
  pure (ppp.serialize ++ (ip.serialize sum ++ ((qbb.setRemoteDelay elapsed).serialize ++ rest)))

/-- A packet of the queue of high priority with a `NICRxTimeTag`, `elapsed` nanoseconds after the
time of the tag. `h` is the header it is parsed into. -/
def stamp (layout : Layout (Member.Fields .delay)) (sum : List Byte → BitVec 16)
    (h : CustomHeader .delay) (elapsed : BitVec 64) (bytes : List Byte) : Option (List Byte) := do
  let ch ← h.deserialize layout bytes
  if ch.1.l3Prot = ProtTypeE.ACK ∨ ch.1.l3Prot = ProtTypeE.NACK ∨ ch.1.l3Prot = ProtTypeE.SACK then
    StateT.run' (restamp sum elapsed) bytes
  else some bytes

/-! ### Taking the headers off -/

theorem PppHeader.deserialize_reads (h : PppHeader) :
    Reads PppHeader.deserialize h.serialize h := by
  intro rest
  rw [PppHeader.deserialize, CustomHeader.readPpp_bind]
  rfl

theorem removeIpv4_reads (ip : Ipv4Header) (sum : List Byte → BitVec 16) :
    ∃ read, Reads removeIpv4 (ip.serialize sum) read ∧ read.protocol = ip.protocol := by
  have version : ¬((4#8 <<< 4 ||| 5#8) >>> 4 ≠ 4#8) := by decide
  have size : ((4#8 <<< 4 ||| 5#8) &&& 0x0f#8).setWidth 16 * 4#16 = 20#16 := by decide
  have reads : ∃ read : Ipv4Header, Reads Ipv4Header.deserialize (ip.serialize sum) (read, 20) ∧
      read.protocol = ip.protocol := by
    refine ⟨?_, fun rest => ?_, ?_⟩
    rotate_left
    · rw [CustomHeader.serialize_ipv4Fields, List.append_assoc]
      simp only [Ipv4Header.deserialize, readU8_bind, size]
      rw [if_neg version]
      simp only [CustomHeader.ipv4Fields, List.append_assoc, lookU8_bind, readU8_bind,
        readNtohU16_bind, readU16_bind, readNtohU32_bind]
      rfl
    · rfl
  obtain ⟨read, reads, same⟩ := reads
  refine ⟨read, fun rest => ?_, same⟩
  have place := Ipv4Header.length_serialize sum ip
  have start : (get : Reader (List Byte)) (ip.serialize sum ++ rest) =
    some (ip.serialize sum ++ rest, ip.serialize sum ++ rest) := rfl
  rw [removeIpv4, run_bind start, reads.bind, run_seek place]
  rfl

theorem QbbHeader.deserialize_reads (h : QbbHeader mode) :
    Reads (QbbHeader.deserialize mode) h.serialize h := by
  intro rest
  have reads := IntHeader.deserialize_reads mode h.ih (IntHeader.new mode)
  simp only [QbbHeader.deserialize, QbbHeader.serialize, List.append_assoc, readU16_bind,
    readU32_bind]
  exact reads.bind _ rest

/-- The three headers off and on again, when the bytes behind the first two are those of `qbb` and
`rest`. -/
theorem restamp_bytes (ppp : PppHeader) (ip : Ipv4Header) (sum : List Byte → BitVec 16)
    (elapsed : BitVec 64) (qbb : QbbHeader .delay) (rest : List Byte) :
    ∃ read : Ipv4Header, read.protocol = ip.protocol ∧
      StateT.run' (restamp sum elapsed) (ppp.serialize ++
        (ip.serialize sum ++ (qbb.serialize ++ rest))) = some (ppp.serialize ++
          (read.serialize sum ++ ((qbb.setRemoteDelay elapsed).serialize ++ rest))) := by
  obtain ⟨read, reads, same⟩ := removeIpv4_reads ip sum
  have run : restamp sum elapsed (ppp.serialize ++ (ip.serialize sum ++ (qbb.serialize ++ rest))) =
      some (ppp.serialize ++
        (read.serialize sum ++ ((qbb.setRemoteDelay elapsed).serialize ++ rest)), rest) := by
    rw [restamp, ppp.deserialize_reads.bind, reads.bind, qbb.deserialize_reads.bind]
    rfl
  refine ⟨read, same, ?_⟩
  show (restamp sum elapsed _).map Prod.fst = _
  rw [run]
  rfl

/-! ### A `sackHeader` taken for a `qbbHeader` -/

/-- A word of the first bytes of another and what follows them. -/
def joined (w : ℕ) (front back : List Byte) : BitVec w := shiftIn w (front ++ back).reverse

theorem leBytes_joined {w n : ℕ} {front back : List Byte} (size : front.length + back.length = n)
    (wide : 8 * n ≤ w) : leBytes n (joined w front back) = front ++ back := by
  have length : (front ++ back).length = n := by rw [List.length_append, size]
  rw [← length] at wide ⊢
  exact leBytes_of_bytes _ wide

/-- The header that is read where a `sackHeader` stands: what it takes for the delay begins in
`irnNackSeq`. -/
def SackHeader.asQbb (h : SackHeader .delay) : QbbHeader .delay where
  sport := h.sport
  dport := h.dport
  flags := h.flags
  pg := h.pg
  seq := h.irnAckSeq
  ih := ({
    hopCnt := byteAt h.irnNackSeq 0
    remoteDelay := joined 32 (leBytes 3 (h.irnNackSeq >>> 8)) (writeU8 (IntDelay.hopCnt h.ih))
    sendTs := joined 64 (writeU32 (IntDelay.remoteDelay h.ih))
      (leBytes 4 (IntDelay.sendTs h.ih)) } : IntDelay)

/-- The header that stands there afterwards. -/
def SackHeader.shifted (h : SackHeader .delay) (delay : BitVec 32) : SackHeader .delay :=
  { h with
    irnNackSeq := joined 32 (leBytes 1 h.irnNackSeq) (leBytes 3 delay)
    ih := ({ (h.ih : IntDelay) with hopCnt := byteAt delay 3 } : IntDelay) }

/-- The bytes of `sendTs` that are left. -/
def SackHeader.tail (h : SackHeader .delay) : List Byte := leBytes 4 (IntDelay.sendTs h.ih >>> 32)

theorem leBytes_one {w : ℕ} (x : BitVec w) (k : ℕ) :
    leBytes 1 (byteAt x k) = leBytes 1 (x >>> (8 * k)) := by
  simp [leBytes, byteAt]

theorem SackHeader.serialize_asQbb (h : SackHeader .delay) : h.serialize = h.asQbb.serialize ++
    h.tail := by
  have nack : writeU32 h.irnNackSeq = leBytes 1 h.irnNackSeq ++ leBytes 3 (h.irnNackSeq >>> 8) :=
    leBytes_add 1 3 _
  have sendTs : writeU64 (IntDelay.sendTs h.ih) = leBytes 4 (IntDelay.sendTs h.ih) ++ h.tail :=
    leBytes_add 4 4 _
  have first : writeU8 (byteAt h.irnNackSeq 0) = leBytes 1 h.irnNackSeq :=
    leBytes_one h.irnNackSeq 0
  have second :
    writeU32 (joined 32 (leBytes 3 (h.irnNackSeq >>> 8)) (writeU8 (IntDelay.hopCnt h.ih))) =
      leBytes 3 (h.irnNackSeq >>> 8) ++ writeU8 (IntDelay.hopCnt h.ih) :=
        leBytes_joined rfl (by decide)
  have third :
    writeU64 (joined 64 (writeU32 (IntDelay.remoteDelay h.ih)) (leBytes 4 (IntDelay.sendTs h.ih))) =
      writeU32 (IntDelay.remoteDelay h.ih) ++ leBytes 4 (IntDelay.sendTs h.ih) :=
        leBytes_joined rfl (by decide)
  simp only [SackHeader.serialize, QbbHeader.serialize, asQbb, IntHeader.serialize, nack, sendTs,
    first, second, third, List.append_assoc]

/-- The stamp lies over three bytes of `irnNackSeq` and the hop count. -/
theorem SackHeader.serialize_shifted (h : SackHeader .delay) (elapsed : BitVec 64) :
    (h.asQbb.setRemoteDelay elapsed).serialize ++ h.tail =
    (h.shifted (elapsed.setWidth 32)).serialize := by
  have delay : writeU32 (elapsed.setWidth 32) =
      leBytes 3 (elapsed.setWidth 32) ++ leBytes 1 (elapsed.setWidth 32 >>> 24) := leBytes_add 3 1 _
  have sendTs : writeU64 (IntDelay.sendTs h.ih) = leBytes 4 (IntDelay.sendTs h.ih) ++ h.tail :=
    leBytes_add 4 4 _
  have first : writeU8 (byteAt h.irnNackSeq 0) = leBytes 1 h.irnNackSeq :=
    leBytes_one h.irnNackSeq 0
  have third :
    writeU64 (joined 64 (writeU32 (IntDelay.remoteDelay h.ih)) (leBytes 4 (IntDelay.sendTs h.ih))) =
      writeU32 (IntDelay.remoteDelay h.ih) ++ leBytes 4 (IntDelay.sendTs h.ih) :=
        leBytes_joined rfl (by decide)
  have nack : writeU32 (joined 32 (leBytes 1 h.irnNackSeq) (leBytes 3 (elapsed.setWidth 32))) =
      leBytes 1 h.irnNackSeq ++ leBytes 3 (elapsed.setWidth 32) := leBytes_joined rfl (by decide)
  have hopCnt : writeU8 (byteAt (elapsed.setWidth 32) 3) = leBytes 1 (elapsed.setWidth 32 >>> 24) :=
    leBytes_one (elapsed.setWidth 32) 3
  simp only [SackHeader.serialize, QbbHeader.serialize, QbbHeader.setRemoteDelay,
    IntDelay.setRemoteDelay, asQbb, shifted,
    IntHeader.serialize, delay, sendTs, first, third, nack, hopCnt, List.append_assoc]

/-! ### What the stamp changes -/

/-- The acknowledgements that are stamped. -/
def Transport.Acknowledges : Transport .delay → Prop
  | .qbb .ack _ | .qbb .nack _ | .sack _ => True
  | _ => False

/-- The L4 header with another remote delay. -/
def Transport.withRemoteDelay (delay : BitVec 32) : Transport .delay → Transport .delay
  | .qbb type h =>
      .qbb type { h with ih := ({ (h.ih : IntDelay) with remoteDelay := delay } : IntDelay) }
  | .sack h => .sack { h with ih := ({ (h.ih : IntDelay) with remoteDelay := delay } : IntDelay) }
  | t => t

/-- Every `CustomHeader` that parses all layers finds the L4 header of the packet with the stamp for
its remote delay, and nothing else changed in it. -/
def StampsDelay (layout : Layout (Member.Fields .delay)) (sum : List Byte → BitVec 16)
    (p : Packet .delay) (elapsed : BitVec 64) : Prop :=
  ∀ h : CustomHeader .delay, h.AllLayers → h.getInt = true →
    ∃ bytes read size, stamp layout sum h elapsed (p.bytes sum) = some bytes ∧
      h.deserialize layout bytes = some (read, size) ∧
      ∃ length, read.l4 = ⟨_, (p.transport.withRemoteDelay (elapsed.setWidth 32)).fields length⟩

/-- The bytes of a SACK on which the stamp comes to lie, and its remote delay, happen to be those of
the stamp. -/
structure SackHeader.Coincides (h : SackHeader .delay) (delay : BitVec 32) : Prop where
  irnNackSeq : ∀ k < 3, byteAt h.irnNackSeq (k + 1) = byteAt delay k
  hopCnt : IntDelay.hopCnt h.ih = byteAt delay 3
  remoteDelay : IntDelay.remoteDelay h.ih = delay

theorem leBytes_eq_iff {w n : ℕ} (x y : BitVec w) : leBytes n x = leBytes n y ↔
    ∀ k < n, byteAt x k = byteAt y k := by
  simp [leBytes]

theorem joined_nack (nack delay : BitVec 32) :
    joined 32 (leBytes 1 nack) (leBytes 3 delay) = nack ↔
    ∀ k < 3, byteAt nack (k + 1) = byteAt delay k := by
  have bytes : leBytes 4 (joined 32 (leBytes 1 nack) (leBytes 3 delay)) = leBytes 1 nack ++
      leBytes 3 delay :=
    leBytes_joined rfl (by decide)
  have split : leBytes 4 nack = leBytes 1 nack ++ leBytes 3 (nack >>> 8) := leBytes_add 1 3 _
  have later : ∀ k, byteAt (nack >>> 8) k = byteAt nack (k + 1) := by
    intro k
    rw [byteAt, byteAt, ← BitVec.shiftRight_add, Nat.mul_succ, Nat.add_comm]
  have same : joined 32 (leBytes 1 nack) (leBytes 3 delay) = nack ↔
      leBytes 3 (nack >>> 8) = leBytes 3 delay := by
    constructor
    · intro same
      rw [same, split] at bytes
      exact List.append_cancel_left bytes
    · intro same
      apply leBytes_injective (n := 4) (by decide)
      rw [bytes, split, same]
  rw [same, leBytes_eq_iff]
  simp only [later]

theorem shifted_coincides (h : SackHeader .delay) (delay : BitVec 32) :
    Transport.sack (h.shifted delay) = (Transport.sack h).withRemoteDelay delay ↔
    h.Coincides delay := by
  constructor
  · intro same
    have fields := Transport.sack.inj same
    have ih : (h.shifted delay).ih = ({ (h.ih : IntDelay) with remoteDelay := delay } : IntDelay) :=
      congrArg SackHeader.ih fields
    refine ⟨(joined_nack _ _).mp (congrArg SackHeader.irnNackSeq fields), ?_, ?_⟩
    · exact (congrArg IntDelay.hopCnt ih).symm
    · exact congrArg IntDelay.remoteDelay ih
  · intro C
    have nack := (joined_nack h.irnNackSeq delay).mpr C.irnNackSeq
    have hopCnt := C.hopCnt
    have remoteDelay := C.remoteDelay
    obtain ⟨sport, dport, flags, pg, ackSeq, nackSeq, ih⟩ := h
    obtain ⟨hop, remote, ts⟩ := (ih : IntDelay)
    simp only [SackHeader.shifted, Transport.withRemoteDelay] at nack hopCnt remoteDelay ⊢
    rw [nack, ← hopCnt, ← remoteDelay]

/-! ### The packet afterwards -/

/-- Where the bytes behind the first two headers are those of `qbb`, the stamped packet has those of
the stamped `qbb`. -/
theorem stamp_bytes (layout : Layout (Member.Fields .delay)) (sum : List Byte → BitVec 16)
    (p : Packet .delay)
    (acknowledges : p.transport.Acknowledges) (elapsed : BitVec 64) (h : CustomHeader .delay)
    (all : h.AllLayers) (getInt : h.getInt = true) {qbb : QbbHeader .delay} {tail : List Byte}
    (bytes : p.transport.serialize p.payload.length = qbb.serialize ++ tail) :
    ∃ read : Ipv4Header, read.protocol = p.ip.protocol ∧ stamp layout sum h elapsed (p.bytes sum) =
      some (p.ppp.serialize ++ (read.serialize sum ++
        ((qbb.setRemoteDelay elapsed).serialize ++ (tail ++ p.payload)))) := by
  obtain ⟨ch, parsed, recovers, -⟩ := CustomHeader.deserialize_recovers layout sum p h all getInt
  have kind : ch.l3Prot = ProtTypeE.ACK ∨ ch.l3Prot = ProtTypeE.NACK ∨
      ch.l3Prot = ProtTypeE.SACK := by
    rw [recovers.l3Prot, p.agrees]
    cases transport : p.transport with
    | qbb type q =>
      rw [transport] at acknowledges
      cases type with
      | ack => exact .inl rfl
      | nack => exact .inr (.inl rfl)
      | token | tokenAck | req => cases acknowledges
    | sack s => exact .inr (.inr rfl)
    | udp | cn | pause =>
      rw [transport] at acknowledges
      cases acknowledges
  obtain ⟨read, same, stamped⟩ := restamp_bytes p.ppp p.ip sum elapsed qbb (tail ++ p.payload)
  refine ⟨read, same, ?_⟩
  have whole : p.bytes sum = p.ppp.serialize ++
      (p.ip.serialize sum ++ (qbb.serialize ++ (tail ++ p.payload))) := by
    simp only [Packet.bytes, Packet.headers, bytes, List.append_assoc]
  rw [stamp, parsed, ← stamped, ← whole]
  exact if_pos kind

/-- The L4 header that is found in the stamped packet, when the bytes of `t` come to stand there. -/
theorem stamp_finds (layout : Layout (Member.Fields .delay)) (sum : List Byte → BitVec 16)
    (p : Packet .delay)
    (acknowledges : p.transport.Acknowledges) (elapsed : BitVec 64) (h : CustomHeader .delay)
    (all : h.AllLayers) (getInt : h.getInt = true) {qbb : QbbHeader .delay} {tail : List Byte}
    (bytes : p.transport.serialize p.payload.length = qbb.serialize ++ tail) (t : Transport .delay)
    (kind : t.protocol = p.transport.protocol)
    (after : (qbb.setRemoteDelay elapsed).serialize ++ tail = t.serialize p.payload.length) :
    ∃ bytes read size, stamp layout sum h elapsed (p.bytes sum) = some bytes ∧
      h.deserialize layout bytes = some (read, size) ∧
      ∃ length, read.l4 = ⟨t.member, t.fields length⟩ := by
  obtain ⟨ip, same, stamped⟩ := stamp_bytes layout sum p acknowledges elapsed h all getInt bytes
  let stampedPacket : Packet .delay := ⟨p.ppp, ip, t, p.payload, by rw [same, p.agrees, kind]⟩
  obtain ⟨read, parsed, recovers, -⟩ :=
    CustomHeader.deserialize_recovers layout sum stampedPacket h all getInt
  obtain ⟨length, l4, -⟩ := recovers.l4
  refine ⟨_, read, (stampedPacket.headers sum).length, stamped, ?_, length, l4⟩
  rw [← parsed]
  simp only [stampedPacket, Packet.bytes, Packet.headers, ← after, List.append_assoc]

def allLayers (layout : Overlaid (Member.Fields .delay)) : CustomHeader .delay where
  headerType := L2_Header ||| L3_Header ||| L4_Header
  sip := 0#32
  dip := 0#32
  l4 := layout

theorem stampsDelay_qbb (layout : Layout (Member.Fields .delay)) (sum : List Byte → BitVec 16)
    (p : Packet .delay)
    (acknowledges : p.transport.Acknowledges) (elapsed : BitVec 64) {type : QbbType}
    {q : QbbHeader .delay}
    (transport : p.transport = .qbb type q) : StampsDelay layout sum p elapsed := by
  intro h all getInt
  have bytes : p.transport.serialize p.payload.length = q.serialize ++ [] := by
    rw [transport, List.append_nil]
    rfl
  exact stamp_finds layout sum p acknowledges elapsed h all getInt bytes
    (p.transport.withRemoteDelay (elapsed.setWidth 32)) (by rw [transport]; rfl)
    (by rw [transport, List.append_nil]; rfl)

theorem stampsDelay_sack (layout : Layout (Member.Fields .delay)) (sum : List Byte → BitVec 16)
    (p : Packet .delay)
    (acknowledges : p.transport.Acknowledges) (elapsed : BitVec 64) {s : SackHeader .delay}
    (transport : p.transport = .sack s) :
    StampsDelay layout sum p elapsed ↔ s.Coincides (elapsed.setWidth 32) := by
  have bytes : p.transport.serialize p.payload.length = s.asQbb.serialize ++ s.tail := by
    rw [transport]
    exact s.serialize_asQbb
  have found := fun h all getInt => stamp_finds layout sum p acknowledges elapsed h all getInt bytes
    (.sack (s.shifted (elapsed.setWidth 32))) (by rw [transport]; rfl) (s.serialize_shifted elapsed)
  constructor
  · intro stamps
    have whole : (allLayers ⟨.pfc, ⟨0#32, 0#32, 0#32⟩⟩).AllLayers := rfl
    obtain ⟨after, read, size, stamped, parsed, length, l4⟩ := found _ whole rfl
    obtain ⟨after', read', size', stamped', parsed', length', l4'⟩ := stamps _ whole rfl
    cases stamped.symm.trans stamped'
    cases parsed.symm.trans parsed'
    rw [transport] at l4'
    have same := Sigma.mk.inj (l4.symm.trans l4')
    exact (shifted_coincides s _).mp (congrArg Transport.sack (eq_of_heq same.2))
  · intro coincides h all getInt
    obtain ⟨after, read, size, stamped, parsed, length, l4⟩ := found h all getInt
    have same := (shifted_coincides s _).mpr coincides
    rw [same, ← transport] at l4
    exact ⟨after, read, size, stamped, parsed, length, l4⟩

theorem stampsDelay_iff (layout : Layout (Member.Fields .delay)) (sum : List Byte → BitVec 16)
    (p : Packet .delay) (acknowledges : p.transport.Acknowledges) (elapsed : BitVec 64) :
    StampsDelay layout sum p elapsed ↔ ∀ h, p.transport = .sack h →
    h.Coincides (elapsed.setWidth 32) := by
  cases transport : p.transport with
  | qbb type q =>
    constructor
    · intro _ h impossible
      cases impossible
    · intro _
      exact stampsDelay_qbb layout sum p acknowledges elapsed transport
  | sack s =>
    rw [stampsDelay_sack layout sum p acknowledges elapsed transport]
    constructor
    · intro coincides h is
      obtain rfl := Transport.sack.inj is
      exact coincides
    · intro coincides
      exact coincides s rfl
  | udp | cn | pause =>
    rw [transport] at acknowledges
    cases acknowledges

/-! ### Two packets -/

def zeroDelay : (m : Member) → m.Fields .delay
  | .tcp => (⟨0, 0, 0, 0, 0, 0, 0, 0, fun _ => 0⟩ : TcpFields)
  | .udp => (⟨0, 0, 0, 0, 0, 0, IntHeader.new .delay⟩ : UdpFields .delay)
  | .cnp => (⟨0, 0, 0, 0, 0⟩ : CnHeader)
  | .sack => (⟨0, 0, 0, 0, 0, 0, IntHeader.new .delay⟩ : SackHeader .delay)
  | .ack | .tkn => (⟨0, 0, 0, 0, 0, IntHeader.new .delay⟩ : QbbHeader .delay)
  | .req => (⟨0, 0, 0, 0, 0, IntHeader.new .delay⟩ : ReqFields .delay)
  | .pfc => (⟨0, 0, 0⟩ : PfcFields)

def delayPacket (t : Transport .delay) : Packet .delay where
  ppp := { protocol := 0x0021#16 }
  ip := {
    payloadSize := 29#16
    identification := 10#16
    tos := 0#8
    ttl := 64#8
    protocol := t.protocol
    flags := 0#3
    fragmentOffset := 0#16
    source := 8#32
    destination := 9#32 }
  transport := t
  payload := []
  agrees := rfl

theorem stampsDelay_ack : StampsDelay (Layout.apart zeroDelay) (fun _ => 0#16)
    (delayPacket (.qbb .ack ⟨1#16, 2#16, 0#16, 3#16, 4000#32, ({ sendTs := 77#64 } : IntDelay)⟩))
      1500#64 := by
  have acknowledges : (delayPacket (.qbb .ack ⟨1#16, 2#16, 0#16, 3#16, 4000#32,
      ({ sendTs := 77#64 } : IntDelay)⟩)).transport.Acknowledges := trivial
  apply (stampsDelay_iff _ _ _ acknowledges _).mpr
  intro h impossible
  cases impossible

/-- A SACK for 2000 that expects 1000, stamped with 1500 nanoseconds. -/
theorem sack_garbled : ¬StampsDelay (Layout.apart zeroDelay) (fun _ => 0#16)
    (delayPacket (.sack ⟨1#16, 2#16, 0#16, 3#16, 2000#32, 1000#32,
      ({ sendTs := 77#64 } : IntDelay)⟩)) 1500#64 := by
  intro stamps
  have acknowledges : (delayPacket (.sack ⟨1#16, 2#16, 0#16, 3#16, 2000#32, 1000#32,
      ({ sendTs := 77#64 } : IntDelay)⟩)).transport.Acknowledges := trivial
  have coincides := (stampsDelay_sack _ _ _ acknowledges _ rfl).mp stamps
  exact absurd coincides.remoteDelay (by decide)

end Wire
end Pyrrha

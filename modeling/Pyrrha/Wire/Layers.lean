import Pyrrha.Wire.Members

/-! The L2 and L3 blocks as `CustomHeader` reads them, and where it reads L4. -/

namespace Pyrrha
open Lib Lib.Reader

namespace Wire

variable {mode : IntMode}

namespace CustomHeader

theorem flagsFrag_high (flags : BitVec 3) (fragment : BitVec 32) :
    flagsFrag flags fragment &&& 0x1f#8 = (fragment >>> 8).setWidth 8 &&& 0x1f#8 := by
  unfold flagsFrag
  generalize (fragment >>> 8).setWidth 8 = high
  revert flags high
  decide +kernel

theorem flagsFrag_flags (flags : BitVec 3) (fragment : BitVec 32) :
    (if flagsFrag flags fragment &&& (1#8 <<< 6) ≠ 0#8 then DONT_FRAGMENT else 0#3)
      ||| (if flagsFrag flags fragment &&& (1#8 <<< 5) ≠ 0#8 then MORE_FRAGMENTS else 0#3)
      = flags &&& (DONT_FRAGMENT ||| MORE_FRAGMENTS) := by
  unfold flagsFrag
  generalize (fragment >>> 8).setWidth 8 = high
  revert flags high
  decide +kernel

theorem fragment_bytes (offset : BitVec 16) :
    (((((offset / 8#16).setWidth 32 >>> 8).setWidth 8 &&& 0x1f#8).setWidth 16 <<< 8)
      ||| (((offset / 8#16).setWidth 32).setWidth 8).setWidth 16) <<< 3 = offset &&& 0xfff8#16 := by
  have units : offset / 8#16 = offset >>> 3 := BitVec.udiv_twoPow_eq_of_lt (k := 3) (by decide)
  rw [units]
  apply BitVec.eq_of_getLsbD_eq
  intro i lt
  simp only [BitVec.getLsbD_and, BitVec.getLsbD_or, BitVec.getLsbD_shiftLeft,
    BitVec.getLsbD_ushiftRight, BitVec.getLsbD_setWidth]
  interval_cases i <;> simp

/-- `h` after the L3 block of a packet was read into it. -/
def withIpv4 (h : CustomHeader mode) (ip : Ipv4Header) (sum : List Byte → BitVec 16) :
    CustomHeader mode :=
  if h.brief then
    { h with
      tos := ip.tos
      ipid := ip.identification
      l3Prot := ip.protocol
      sip := ip.source
      dip := ip.destination }
  else
    { h with
      tos := ip.tos
      payloadSize := ip.payloadSize
      ipid := ip.identification
      ipv4Flags := ip.flags &&& (DONT_FRAGMENT ||| MORE_FRAGMENTS)
      fragmentOffset := ip.fragmentOffset &&& 0xfff8#16
      ttl := ip.ttl
      l3Prot := ip.protocol
      checksum := ip.checksum sum
      sip := ip.source
      dip := ip.destination
      headerSize := 20#16 }

/-- An IPv4 header without its first byte. -/
def ipv4Fields (ip : Ipv4Header) (sum : List Byte → BitVec 16) : List Byte :=
  writeU8 ip.tos ++ writeHtonU16 (ip.payloadSize + 20#16) ++ writeHtonU16 ip.identification
    ++ (writeU8 (flagsFrag ip.flags ip.fragment) ++ writeU8 (ip.fragment.setWidth 8) ++
      writeU8 ip.ttl)
    ++ writeU8 ip.protocol ++ writeU16 (ip.checksum sum) ++ writeHtonU32 ip.source ++
      writeHtonU32 ip.destination

theorem serialize_ipv4Fields (ip : Ipv4Header) (sum : List Byte → BitVec 16) :
    ip.serialize sum = writeU8 (4#8 <<< 4 ||| 5#8) ++ ipv4Fields ip sum := by
  simp only [Ipv4Header.serialize, Ipv4Header.beforeChecksum, Ipv4Header.afterChecksum, ipv4Fields,
    List.append_assoc]

theorem readIpv4Brief_reads (h : CustomHeader mode) (ip : Ipv4Header) (sum : List Byte → BitVec 16)
    (brief : h.brief = true) : Reads (readIpv4Brief h) (ipv4Fields ip sum) (h.withIpv4 ip sum) := by
  intro rest
  have length := reads_skip (length_writeHtonU16 (ip.payloadSize + 20#16))
  have three : (writeU8 (flagsFrag ip.flags ip.fragment) ++ writeU8 (ip.fragment.setWidth 8) ++
    writeU8 ip.ttl).length = 3 := by simp
  have checksum := reads_skip (length_writeU16 (ip.checksum sum))
  simp only [readIpv4Brief, ipv4Fields]
  generalize writeU8 (flagsFrag ip.flags ip.fragment) ++ writeU8 (ip.fragment.setWidth 8) ++
    writeU8 ip.ttl = skipped at three ⊢
  simp only [List.append_assoc, readU8_bind, length.bind, readNtohU16_bind, (reads_skip three).bind,
    checksum.bind, readNtohU32_bind]
  simp only [withIpv4, brief, if_true]
  rfl

theorem readIpv4_reads (h : CustomHeader mode) (ip : Ipv4Header) (sum : List Byte → BitVec 16)
    (full : h.brief = false) :
    Reads (readIpv4 h 20#16) (ipv4Fields ip sum) (h.withIpv4 ip sum) := by
  intro rest
  have offset := fragment_bytes ip.fragmentOffset
  have payload : ip.payloadSize + 20#16 - 20#16 = ip.payloadSize := BitVec.add_sub_cancel ..
  simp only [readIpv4, ipv4Fields, List.append_assoc, lookU8_bind, readU8_bind, readNtohU16_bind,
    readU16_bind,
    readNtohU32_bind, flagsFrag_flags, flagsFrag_high, Ipv4Header.fragment, offset, payload]
  simp only [withIpv4, full, Bool.false_eq_true, if_false]
  rfl

theorem readL3_reads (h : CustomHeader mode) (ip : Ipv4Header) (sum : List Byte → BitVec 16) :
    Reads (readL3 h) (ip.serialize sum) (h.withIpv4 ip sum, some 20) := by
  intro rest
  have version : ¬((4#8 <<< 4 ||| 5#8) >>> 4 ≠ 4#8) := by decide
  have size : ((4#8 <<< 4 ||| 5#8) &&& 0x0f#8).setWidth 16 * 4#16 = 20#16 := by decide
  rw [serialize_ipv4Fields, List.append_assoc]
  simp only [readL3, readU8_bind, size]
  rw [if_neg version]
  cases brief : h.brief with
  | true => exact (readIpv4Brief_reads h ip sum brief).bind _ rest
  | false => exact (readIpv4_reads h ip sum brief).bind _ rest

/-- `h` after the L2 and L3 blocks were read into it. -/
def withLower (h : CustomHeader mode) (ppp : PppHeader) (ip : Ipv4Header)
    (sum : List Byte → BitVec 16) : CustomHeader mode :=
  withIpv4 { h with pppProto := ppp.protocol } ip sum

/-- `headerType` is `L2_Header | L3_Header | L4_Header`. -/
def AllLayers (h : CustomHeader mode) : Prop := h.headerType = L2_Header ||| L3_Header ||| L4_Header

theorem withIpv4_frame (h : CustomHeader mode) (ip : Ipv4Header) (sum : List Byte → BitVec 16) :
    (h.withIpv4 ip sum).headerType = h.headerType ∧ (h.withIpv4 ip sum).brief = h.brief ∧
    (h.withIpv4 ip sum).getInt = h.getInt ∧ (h.withIpv4 ip sum).pppProto = h.pppProto ∧
    (h.withIpv4 ip sum).l4 = h.l4 := by
  unfold withIpv4
  split <;> exact ⟨rfl, rfl, rfl, rfl, rfl⟩

theorem withIpv4_brief (h : CustomHeader mode) (ip : Ipv4Header) (sum : List Byte → BitVec 16) :
    (h.withIpv4 ip sum).tos = ip.tos ∧ (h.withIpv4 ip sum).ipid = ip.identification ∧
    (h.withIpv4 ip sum).l3Prot = ip.protocol ∧ (h.withIpv4 ip sum).sip = ip.source ∧
    (h.withIpv4 ip sum).dip = ip.destination := by
  unfold withIpv4
  split <;> exact ⟨rfl, rfl, rfl, rfl, rfl⟩

theorem readPpp_bind {β : Type} (ppp : PppHeader) (f : BitVec 16 → Reader β) (rest : List Byte) :
    (readNtohU16 >>= fun protocol => skip 36 >>= fun _ => f protocol) (ppp.serialize ++ rest) =
      f ppp.protocol rest := by
  have padding : (writeU64 0#64 ++
      (writeU32 0#32 ++ (List.range 6).flatMap fun _ => writeU32 0#32)).length = 36 := by
    simp
  simp only [PppHeader.serialize, List.append_assoc, readNtohU16_bind]
  rw [← List.append_assoc (writeU32 _), ← List.append_assoc (writeU64 _), (reads_skip padding).bind]

theorem readL2_reads (h : CustomHeader mode) (ppp : PppHeader) (all : AllLayers h) :
    Reads (deserialize.readL2 h) ppp.serialize ({ h with pppProto := ppp.protocol }, 38) := by
  intro rest
  have l2 : h.headerType &&& L2_Header ≠ 0#32 := by
    rw [all]
    decide
  rw [deserialize.readL2, if_pos l2, readPpp_bind]
  rfl

theorem deserialize_layers (layout : Layout (Member.Fields mode)) (h : CustomHeader mode)
    (ppp : PppHeader)
    (ip : Ipv4Header) (sum : List Byte → BitVec 16) (upper : List Byte) (all : AllLayers h) :
    h.deserialize layout (ppp.serialize ++ (ip.serialize sum ++ upper)) =
      (readL4 layout (ppp.serialize ++ (ip.serialize sum ++ upper)) 58
        (h.withLower ppp ip sum) upper).map Prod.fst := by
  have l3 : h.headerType &&& L3_Header ≠ 0#32 := by
    rw [all]
    decide
  have l4 : (h.withLower ppp ip sum).headerType &&& L4_Header ≠ 0#32 := by
    rw [withLower, (withIpv4_frame ..).1]
    rw [show ({ h with pppProto := ppp.protocol } : CustomHeader mode).headerType = _ from all]
    decide
  have block3 : deserialize.readBlock3 (ppp.serialize ++ (ip.serialize sum ++ upper)) 38
      { h with pppProto := ppp.protocol } (ip.serialize sum ++ upper) =
        some ((h.withLower ppp ip sum, some 20), upper) := by
    rw [deserialize.readBlock3, if_pos l3, run_seek ppp.length_serialize]
    exact readL3_reads { h with pppProto := ppp.protocol } ip sum upper
  have rest : (do
      let read2 ← deserialize.readL2 h
      let read3 ← deserialize.readBlock3 (ppp.serialize ++
        (ip.serialize sum ++ upper)) read2.2 read2.1
      readUpper layout (ppp.serialize ++ (ip.serialize sum ++ upper)) read2.2 read3.1 read3.2 :
        Reader (CustomHeader mode × ℕ)) (ppp.serialize ++ (ip.serialize sum ++ upper)) =
      readL4 layout (ppp.serialize ++ (ip.serialize sum ++ upper)) 58
        (h.withLower ppp ip sum) upper := by
    rw [(readL2_reads h ppp all).bind, run_bind block3]
    simp only [readUpper]
    rw [if_pos l4]
  rw [← rest]
  rfl

/-- L4 is read from the end of the layers below, whether or not the code goes back to `start`
first. -/
theorem readL4_reads (layout : Layout (Member.Fields mode)) (h : CustomHeader mode)
    {lower bytes : List Byte} (payload : List Byte)
    {n : ℕ} {m : Member} {read : m.Fields mode × ℕ} (place : lower.length = n)
    (reads : Reads (readMember h n m (layout.read m h.l4)) bytes read)
    (member : l4Member h.l3Prot = some m) :
    readL4 layout (lower ++ (bytes ++ payload)) n h (bytes ++ payload) =
      some (({ h with l4 := ⟨m, read.1⟩ }, read.2), payload) := by
  have there : goTo (lower ++ (bytes ++ payload)) n m (bytes ++ payload) =
      some ((), bytes ++ payload) := by
    subst place
    cases m <;> simp [goTo, seek, run_pure]
  simp only [readL4, member]
  rw [run_bind there, reads.bind]
  rfl

end CustomHeader
end Wire
end Pyrrha

import Mathlib.Tactic.IntervalCases
import Pyrrha.Wire.Custom

/-! Each member of the union of `CustomHeader` is read as it was written. -/

namespace Pyrrha
open Lib Lib.Reader

namespace Wire

variable {mode : IntMode}

namespace CustomHeader

theorem readInt_bind {β : Type} (ih old : IntHeader mode) (f : IntHeader mode → Reader β)
    (rest : List Byte) : (readInt true old >>= f) (ih.serialize ++ rest) = f ih rest :=
  (IntHeader.deserialize_reads mode ih old).bind f rest

theorem readCnp_reads (h : CnHeader) : Reads readCnp h.serialize h := by
  intro rest
  simp only [readCnp, CnHeader.serialize, List.append_assoc, readU8_bind, readU16_bind]
  rfl

theorem readPfc_reads (h : PfcFields) :
    Reads readPfc (writeU32 h.time ++ writeU32 h.qlen ++ writeU32 h.qIndex) h := by
  intro rest
  simp only [readPfc, List.append_assoc, readU32_bind]
  rfl

theorem readQbb_reads (h old : QbbHeader mode) : Reads (readQbb true old) h.serialize h := by
  intro rest
  simp only [readQbb, QbbHeader.serialize, List.append_assoc, readU16_bind, readU32_bind,
    readInt_bind]
  rfl

theorem readReq_reads (h old : ReqFields mode) :
    Reads (readReq true old) (writeU16 h.sport ++ writeU16 h.dport ++ writeU16 h.flags ++
      writeU16 h.pg ++ writeU32 h.total ++ h.ih.serialize) h := by
  intro rest
  simp only [readReq, List.append_assoc, readU16_bind, readU32_bind, readInt_bind]
  rfl

theorem readSack_reads (h old : SackHeader mode) : Reads (readSack true old) h.serialize h := by
  intro rest
  simp only [readSack, SackHeader.serialize, List.append_assoc, readU16_bind, readU32_bind,
    readInt_bind]
  rfl

theorem readPayloadSize_reads (brief : Bool) (length old : BitVec 16) {sum : List Byte}
    (two : sum.length = 2) : Reads (readPayloadSize brief old) (writeHtonU16 length ++ sum)
      (if brief then old else length) := by
  intro rest
  cases brief with
  | true =>
    have four : (writeHtonU16 length ++ sum).length = 4 := by simp [two]
    exact (reads_skip four).bind (fun _ => pure old) rest
  | false =>
    simp only [readPayloadSize, Bool.false_eq_true, if_false, List.append_assoc, readNtohU16_bind]
    exact (reads_skip two).bind (fun _ => pure length) rest

/-- The UDP header, with any checksum, and `SeqTsHeader`. -/
def udpBytes (h : UdpFields mode) (sum : List Byte) : List Byte :=
  writeHtonU16 h.sport ++ writeHtonU16 h.dport ++ writeHtonU16 h.payload_size ++ sum
    ++ writeHtonU32 h.seq ++ writeHtonU32 h.size ++ writeHtonU16 h.pg ++ h.ih.serialize

theorem readUdp_reads (brief : Bool) (h old : UdpFields mode) {sum : List Byte}
    (two : sum.length = 2) : Reads (readUdp brief true old) (udpBytes h sum)
      { h with payload_size := if brief then old.payload_size else h.payload_size } := by
  intro rest
  simp only [readUdp, udpBytes, List.append_assoc, readNtohU16_bind]
  rw [← List.append_assoc (writeHtonU16 h.payload_size),
    (readPayloadSize_reads brief h.payload_size old.payload_size two).bind]
  simp only [readNtohU32_bind, readNtohU16_bind, readInt_bind]
  rfl

/-- The length is really 4 bits wide and the flags 6. -/
def TcpFits (h : TcpFields) : Prop := h.length < 16#8 ∧ h.tcpFlags < 64#8

theorem tcpField_flags (length tcpFlags : BitVec 8) :
    ((length.setWidth 16 <<< 12 ||| tcpFlags.setWidth 16) &&& 0x3F#16).setWidth 8 =
      tcpFlags &&& 0x3F#8 := by
  apply BitVec.eq_of_getLsbD_eq
  intro i lt
  simp only [BitVec.getLsbD_and, BitVec.getLsbD_or, BitVec.getLsbD_shiftLeft,
    BitVec.getLsbD_setWidth]
  interval_cases i <;> simp

theorem tcpField_length (length tcpFlags : BitVec 8) :
    ((length.setWidth 16 <<< 12 ||| tcpFlags.setWidth 16) >>> 12).setWidth 8 =
      length &&& 0xF#8 := by
  apply BitVec.eq_of_getLsbD_eq
  intro i lt
  simp only [BitVec.getLsbD_and, BitVec.getLsbD_or, BitVec.getLsbD_shiftLeft,
    BitVec.getLsbD_ushiftRight, BitVec.getLsbD_setWidth]
  interval_cases i <;> simp

theorem low_flags (tcpFlags : BitVec 8) : tcpFlags &&& 0x3F#8 = tcpFlags ↔ tcpFlags < 64#8 := by
  revert tcpFlags
  decide +kernel

theorem low_length (length : BitVec 8) : length &&& 0xF#8 = length ↔ length < 16#8 := by
  revert length
  decide +kernel

/-- The fields of `tcp` that are parsed: of the option buffer, as much as the length says, unless
that is too much. -/
structure SameTcp (h read : TcpFields) : Prop where
  fields : read = { h with optionBuf := read.optionBuf }
  options : ∀ k : Fin 32, k < h.optionLen → h.optionLen ≤ 32 → read.optionBuf k = h.optionBuf k

/-- The option buffer over which `options` were read. -/
def withOptions (old : TcpFields) (options : List Byte) (k : Fin 32) : Byte :=
  options.getD k (old.optionBuf k)

theorem withOptions_same (h old : TcpFields) (k : Fin 32) (inside : k < h.optionLen) :
    withOptions old ((List.ofFn h.optionBuf).take h.optionLen) k = h.optionBuf k := by
  have short : (k : ℕ) < ((List.ofFn h.optionBuf).take h.optionLen).length := by
    have := k.isLt
    simp [inside]
  rw [withOptions, List.getD_eq_getElem?_getD, List.getElem?_eq_getElem short, Option.getD_some,
    List.getElem_take, List.getElem_ofFn]

theorem readTcp_reads (h old : TcpFields) (fits : TcpFits h) :
    ∃ read size, Reads (readTcp false old) (writeTcp h) (read, size) ∧ SameTcp h read := by
  have flags := (tcpField_flags h.length h.tcpFlags).trans ((low_flags _).mpr fits.2)
  have length := (tcpField_length h.length h.tcpFlags).trans ((low_length _).mpr fits.1)
  have skipped := reads_skip (length_writeHtonU16 0#16)
  by_cases long : 32 < h.optionLen
  · refine ⟨{ h with optionBuf := old.optionBuf }, none, ?_, rfl, ?_⟩
    · intro rest
      have discarded : 32 < TcpFields.optionLen { h with optionBuf := old.optionBuf } := long
      simp only [readTcp, writeTcp, List.append_assoc, readNtohU16_bind, readNtohU32_bind,
        flags, length, Bool.false_eq_true, if_false, skipped.bind]
      rw [if_pos discarded, if_neg (Nat.not_le.mpr long)]
      rfl
    · intro k _ short
      omega
  · refine ⟨{ h with optionBuf := withOptions old ((List.ofFn h.optionBuf).take h.optionLen) },
      some (h.length.toNat * 4), ?_, rfl, ?_⟩
    · intro rest
      have kept : ¬32 < TcpFields.optionLen { h with optionBuf := old.optionBuf } := long
      have size : ((List.ofFn h.optionBuf).take h.optionLen).length = h.optionLen := by
        rw [List.length_take, List.length_ofFn]
        omega
      have taken := reads_take ((List.ofFn h.optionBuf).take h.optionLen)
      rw [size] at taken
      simp only [readTcp, writeTcp, List.append_assoc, readNtohU16_bind, readNtohU32_bind,
        flags, length, Bool.false_eq_true, if_false, skipped.bind]
      rw [if_neg kept, if_pos (Nat.not_lt.mp long)]
      exact taken.bind _ rest
    · intro k inside _
      exact withOptions_same h old k inside

end CustomHeader
end Wire
end Pyrrha

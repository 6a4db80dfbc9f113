import VirtualPlc.Runtime.State
import VirtualPlc.Word.Checked
import VirtualPlc.Word.Framing

/-!
# Modbus TCP frames

Function and exception codes, the MBAP header with its byte form, and how a stream of frames is cut:
the length field counts the unit identifier and the PDU, so a frame is six bytes longer than it
says.
-/

set_option autoImplicit false

namespace VirtualPlc.Fieldbus

open VirtualPlc.Runtime VirtualPlc.Word

/-- A byte. -/
abbrev Byte : Type := BitVec 8

/-- Modbus function codes. -/
inductive FunctionCode where
  | readCoils
  | readDiscreteInputs
  | readHoldingRegisters
  | readInputRegisters
  | writeSingleCoil
  | writeSingleRegister
  | writeMultipleCoils
  | writeMultipleRegisters
deriving DecidableEq, Repr

/-- `function as u8`. -/
def FunctionCode.code : FunctionCode → Byte
  | .readCoils => 0x01
  | .readDiscreteInputs => 0x02
  | .readHoldingRegisters => 0x03
  | .readInputRegisters => 0x04
  | .writeSingleCoil => 0x05
  | .writeSingleRegister => 0x06
  | .writeMultipleCoils => 0x0F
  | .writeMultipleRegisters => 0x10

/-- Modbus exception codes. -/
inductive ExceptionCode where
  | illegalFunction
  | illegalDataAddress
  | illegalDataValue
  | serverDeviceFailure
  | acknowledge
  | serverDeviceBusy
  | gatewayPathUnavailable
  | gatewayTargetFailed
deriving DecidableEq, Repr

namespace ExceptionCode

/-- Parses an exception code. -/
def fromByte (byte : Byte) : Option ExceptionCode :=
  if byte = 0x01 then some .illegalFunction
  else if byte = 0x02 then some .illegalDataAddress
  else if byte = 0x03 then some .illegalDataValue
  else if byte = 0x04 then some .serverDeviceFailure
  else if byte = 0x05 then some .acknowledge
  else if byte = 0x06 then some .serverDeviceBusy
  else if byte = 0x0A then some .gatewayPathUnavailable
  else if byte = 0x0B then some .gatewayTargetFailed
  else none

/-- Name of an exception in messages. -/
def display : ExceptionCode → String
  | .illegalFunction => "Illegal Function"
  | .illegalDataAddress => "Illegal Data Address"
  | .illegalDataValue => "Illegal Data Value"
  | .serverDeviceFailure => "Server Device Failure"
  | .acknowledge => "Acknowledge"
  | .serverDeviceBusy => "Server Device Busy"
  | .gatewayPathUnavailable => "Gateway Path Unavailable"
  | .gatewayTargetFailed => "Gateway Target Failed"

end ExceptionCode

/-- Upper-case hexadecimal digits, padded with zeros to `width`. -/
def upperHex (width n : Nat) : String :=
  String.ofList (((Nat.toDigits 16 n).map Char.toUpper).leftpad width '0')

/-- `to_be_bytes`. -/
def toBeBytes (x : BitVec 16) : List Byte := [x.extractLsb' 8 8, x.extractLsb' 0 8]

/-- `from_be_bytes`. -/
def fromBeBytes (hi lo : Byte) : BitVec 16 := hi ++ lo

theorem fromBeBytes_toBeBytes (x : BitVec 16) :
    fromBeBytes (x.extractLsb' 8 8) (x.extractLsb' 0 8) = x := by
  unfold fromBeBytes
  ext i hi
  simp only [BitVec.getElem_append, BitVec.getElem_extractLsb']
  split
  · simp [BitVec.getLsbD_eq_getElem hi]
  · next hge =>
    rw [show 8 + (i - 8) = i by omega, BitVec.getLsbD_eq_getElem hi]

/-- MBAP header. `length` counts the unit identifier and the PDU. -/
structure MbapHeader where
  transactionId : BitVec 16
  protocolId : BitVec 16
  length : BitVec 16
  unitId : Byte
deriving DecidableEq, Repr

namespace MbapHeader

/-- Size of a header in bytes. -/
def size : Nat := 7

/-- Header of a request. -/
def new (b : Build) (transactionId pduLength : BitVec 16) (unitId : Byte) :
    Except Failure MbapHeader := do
  let length ← u16Add b pduLength 1
  return ⟨transactionId, 0, length, unitId⟩

/-- Byte form of a header. -/
def toBytes (header : MbapHeader) : List Byte :=
  toBeBytes header.transactionId ++ toBeBytes header.protocolId ++ toBeBytes header.length ++
    [header.unitId]

/-- Parses a header. -/
def fromBytes : List Byte → PlcResult MbapHeader
  | b0 :: b1 :: b2 :: b3 :: b4 :: b5 :: b6 :: _ =>
    .ok ⟨fromBeBytes b0 b1, fromBeBytes b2 b3, fromBeBytes b4 b5, b6⟩
  | bytes => .error (.fieldbusError s!"MBAP header too short: {bytes.length} bytes")

theorem fromBytes_toBytes (header : MbapHeader) (rest : List Byte) :
    fromBytes (header.toBytes ++ rest) = .ok header := by
  simp [toBytes, toBeBytes, fromBytes, fromBeBytes_toBeBytes]

/-- Seven bytes hold a header. -/
theorem fromBytes_of_length {bytes : List Byte} (h : bytes.length = size) :
    ∃ header, fromBytes bytes = .ok header := by
  match bytes, h with
  | [_, _, _, _, _, _, _], _ => exact ⟨_, rfl⟩

/-- The comparisons of a response header with the request, in the source's order. -/
def validate (response : MbapHeader) (transactionId : BitVec 16) (unitId : Byte) :
    PlcResult Unit :=
  if response.transactionId ≠ transactionId then
    .error (.fieldbusError (s!"Transaction ID mismatch: expected {transactionId.toNat}, " ++
      s!"got {response.transactionId.toNat}"))
  else if response.protocolId ≠ 0 then
    .error (.fieldbusError s!"Invalid protocol ID: {response.protocolId.toNat}")
  else if response.unitId ≠ unitId then
    .error (.fieldbusError
      s!"Unit ID mismatch: expected {unitId.toNat}, got {response.unitId.toNat}")
  else .ok ()

/-- A header that answers a request. -/
def Answers (response : MbapHeader) (transactionId : BitVec 16) (unitId : Byte) : Prop :=
  response.transactionId = transactionId ∧ response.protocolId = 0 ∧ response.unitId = unitId

instance (response : MbapHeader) (transactionId : BitVec 16) (unitId : Byte) :
    Decidable (response.Answers transactionId unitId) :=
  inferInstanceAs (Decidable (_ ∧ _ ∧ _))

theorem validate_of_answers {response : MbapHeader} {transactionId : BitVec 16} {unitId : Byte}
    (h : response.Answers transactionId unitId) :
    response.validate transactionId unitId = .ok () := by
  obtain ⟨htransaction, hprotocol, hunit⟩ := h
  simp [validate, htransaction, hprotocol, hunit]

theorem validate_of_not_answers {response : MbapHeader} {transactionId : BitVec 16}
    {unitId : Byte} (h : ¬ response.Answers transactionId unitId) :
    ∃ e, response.validate transactionId unitId = .error e := by
  unfold validate
  split
  · exact ⟨_, rfl⟩
  · next htransaction =>
    split
    · exact ⟨_, rfl⟩
    · next hprotocol =>
      split
      · exact ⟨_, rfl⟩
      · next hunit =>
        exact absurd ⟨not_not.mp htransaction, not_not.mp hprotocol, not_not.mp hunit⟩ h

end MbapHeader

/-! ## Frame boundaries -/

/-- Size of the frame at the head of a stream. -/
def announcedSize : List Byte → Nat
  | _ :: _ :: _ :: _ :: hi :: lo :: _ => 6 + (fromBeBytes hi lo).toNat
  | _ => 6

/-- How a stream of Modbus frames is cut. -/
def mbapFraming : Framing Byte where
  head := 6
  size := announcedSize
  head_pos := by decide
  head_le := by
    intro bytes
    unfold announcedSize
    split <;> omega
  size_append := by
    intro xs ys h
    match xs, h with
    | _ :: _ :: _ :: _ :: _ :: _ :: _, _ => rfl

theorem announcedSize_of_fromBytes {bytes : List Byte} {header : MbapHeader}
    (h : MbapHeader.fromBytes bytes = .ok header) (rest : List Byte) :
    announcedSize (bytes ++ rest) = 6 + header.length.toNat := by
  unfold MbapHeader.fromBytes at h
  split at h
  · cases h
    rfl
  · cases h

/-- A header read without its PDU ends a frame only if it announces an empty PDU. -/
theorem whole_header_iff {bytes : List Byte} {header : MbapHeader}
    (hlen : bytes.length = MbapHeader.size) (h : MbapHeader.fromBytes bytes = .ok header) :
    mbapFraming.Whole bytes ↔ header.length = 1 := by
  have hne : bytes ≠ [] := by
    intro hnil
    rw [hnil] at hlen
    cases hlen
  have hshort : bytes.length < 2 * mbapFraming.head := by
    rw [hlen]
    decide
  have hsize := announcedSize_of_fromBytes h []
  rw [List.append_nil] at hsize
  have hone : header.length = 1 ↔ header.length.toNat = 1 := by
    constructor
    · intro heq
      rw [heq]
      rfl
    · intro heq
      exact BitVec.eq_of_toNat_eq heq
  rw [Framing.whole_iff_isFrame hne hshort, hone, Framing.IsFrame]
  change 6 ≤ bytes.length ∧ announcedSize bytes = bytes.length ↔ _
  rw [hsize, hlen]
  unfold MbapHeader.size
  omega

/-- A header and as many bytes of PDU as it announces are a frame. -/
theorem whole_response {bytes pdu : List Byte} {header : MbapHeader}
    (hlen : bytes.length = MbapHeader.size) (h : MbapHeader.fromBytes bytes = .ok header)
    (hpdu : header.length.toNat = pdu.length + 1) : mbapFraming.Whole (bytes ++ pdu) := by
  apply Framing.IsFrame.whole
  constructor
  · rw [List.length_append, hlen]
    exact Nat.le_add_right_of_le (by decide)
  · change announcedSize (bytes ++ pdu) = _
    rw [announcedSize_of_fromBytes h pdu, hpdu, List.length_append, hlen]
    unfold MbapHeader.size
    omega

end VirtualPlc.Fieldbus

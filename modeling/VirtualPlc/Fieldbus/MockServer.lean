import VirtualPlc.Fieldbus.Codecs

/-!
# The mock server

The Modbus server that the tests of the driver talk to, in its normal mode: a request frame is cut
into header and PDU, the PDU is executed on the storage, and the response goes back under the
transaction and unit identifiers of the request. The server's header code is that of the driver.
-/

set_option autoImplicit false

namespace VirtualPlc.Fieldbus

open VirtualPlc.Runtime VirtualPlc.Word ModbusTcpDriver

/-- `FunctionCode::from_byte`. -/
def FunctionCode.fromByte (byte : Byte) : Option FunctionCode :=
  if byte = 0x01 then some .readCoils
  else if byte = 0x02 then some .readDiscreteInputs
  else if byte = 0x03 then some .readHoldingRegisters
  else if byte = 0x04 then some .readInputRegisters
  else if byte = 0x05 then some .writeSingleCoil
  else if byte = 0x06 then some .writeSingleRegister
  else if byte = 0x0F then some .writeMultipleCoils
  else if byte = 0x10 then some .writeMultipleRegisters
  else none

@[simp] theorem FunctionCode.fromByte_code (function : FunctionCode) :
    FunctionCode.fromByte function.code = some function := by
  cases function <;> rfl

/-- Storage of the server, addresses 0 to 255 each. -/
structure ModbusStorage where
  coils : Vector Bool 256
  discreteInputs : Vector Bool 256
  holdingRegisters : Vector (BitVec 16) 256
  inputRegisters : Vector (BitVec 16) 256
deriving DecidableEq, Repr

/-- Storage with everything off. -/
def ModbusStorage.default : ModbusStorage where
  coils := Vector.replicate 256 false
  discreteInputs := Vector.replicate 256 false
  holdingRegisters := Vector.replicate 256 0
  inputRegisters := Vector.replicate 256 0

/-- An exception response. -/
def exceptionPdu (function : Byte) (code : Byte) : List Byte := [function ||| 0x80, code]

namespace ModbusStorage

variable (storage : ModbusStorage)

/-- `&values[start..start + quantity]`. -/
def range {α : Type} (values : Vector α 256) (startAddress quantity : Nat) : List α :=
  (values.toList.drop startAddress).take quantity

/-- Read Coils or Read Discrete Inputs. -/
def handleReadBits (pdu : List Byte) (isCoils : Bool) : List Byte :=
  match pdu with
  | function :: address1 :: address0 :: quantity1 :: quantity0 :: _ =>
    let startAddress := (fromBeBytes address1 address0).toNat
    let quantity := (fromBeBytes quantity1 quantity0).toNat
    if quantity = 0 ∨ 2000 < quantity then exceptionPdu function 0x03
    else if 256 < startAddress + quantity then exceptionPdu function 0x02
    else
      let values := if isCoils then storage.coils else storage.discreteInputs
      let bits := range values startAddress quantity
      let byteCount := (quantity + 7) / 8
      let data := bits.zipIdx.foldl
        (fun data (bit, i) => if bit then data.modify (i / 8) (· ||| 1 <<< (i % 8)) else data)
        (List.replicate byteCount (0 : Byte))
      [function, BitVec.ofNat 8 byteCount] ++ data
  | function :: _ => exceptionPdu function 0x03
  | [] => []

/-- Read Holding Registers or Read Input Registers. -/
def handleReadRegisters (pdu : List Byte) (isHolding : Bool) : List Byte :=
  match pdu with
  | function :: address1 :: address0 :: quantity1 :: quantity0 :: _ =>
    let startAddress := (fromBeBytes address1 address0).toNat
    let quantity := (fromBeBytes quantity1 quantity0).toNat
    if quantity = 0 ∨ 125 < quantity then exceptionPdu function 0x03
    else if 256 < startAddress + quantity then exceptionPdu function 0x02
    else
      let values := if isHolding then storage.holdingRegisters else storage.inputRegisters
      let registers := range values startAddress quantity
      [function, BitVec.ofNat 8 (quantity * 2)] ++ registers.flatMap toBeBytes
  | function :: _ => exceptionPdu function 0x03
  | [] => []

/-- Write Single Coil. -/
def handleWriteSingleCoil (pdu : List Byte) : List Byte × ModbusStorage :=
  match pdu with
  | function :: address1 :: address0 :: value1 :: value0 :: _ =>
    let address := (fromBeBytes address1 address0).toNat
    let value := fromBeBytes value1 value0
    if 256 ≤ address then (exceptionPdu function 0x02, storage)
    else if value ≠ 0x0000 ∧ value ≠ 0xFF00 then (exceptionPdu function 0x03, storage)
    else
      -- the response echoes the request
      (pdu, { storage with coils := storage.coils.setIfInBounds address (decide (value = 0xFF00)) })
  | function :: _ => (exceptionPdu function 0x03, storage)
  | [] => ([], storage)

/-- Write Single Register. -/
def handleWriteSingleRegister (pdu : List Byte) : List Byte × ModbusStorage :=
  match pdu with
  | function :: address1 :: address0 :: value1 :: value0 :: _ =>
    let address := (fromBeBytes address1 address0).toNat
    let value := fromBeBytes value1 value0
    if 256 ≤ address then (exceptionPdu function 0x02, storage)
    else
      (pdu, { storage with
        holdingRegisters := storage.holdingRegisters.setIfInBounds address value })
  | function :: _ => (exceptionPdu function 0x03, storage)
  | [] => ([], storage)

/-- Write Multiple Coils. -/
def handleWriteMultipleCoils (pdu : List Byte) : List Byte × ModbusStorage :=
  match pdu with
  | function :: address1 :: address0 :: quantity1 :: quantity0 :: count :: data =>
    let startAddress := (fromBeBytes address1 address0).toNat
    let quantity := (fromBeBytes quantity1 quantity0).toNat
    if quantity = 0 ∨ 1968 < quantity then (exceptionPdu function 0x03, storage)
    else if count.toNat ≠ (quantity + 7) / 8 ∨ data.length < count.toNat then
      (exceptionPdu function 0x03, storage)
    else if 256 < startAddress + quantity then (exceptionPdu function 0x02, storage)
    else
      let coils := (List.range quantity).foldl (fun coils i =>
        coils.setIfInBounds (startAddress + i)
          (decide (((data[i / 8]?.getD 0) >>> (i % 8)) &&& 1 ≠ 0))) storage.coils
      ([function] ++ toBeBytes (BitVec.ofNat 16 startAddress) ++
          toBeBytes (BitVec.ofNat 16 quantity),
        { storage with coils })
  | function :: _ => (exceptionPdu function 0x03, storage)
  | [] => ([], storage)

/-- Write Multiple Registers. -/
def handleWriteMultipleRegisters (pdu : List Byte) : List Byte × ModbusStorage :=
  match pdu with
  | function :: address1 :: address0 :: quantity1 :: quantity0 :: count :: data =>
    let startAddress := (fromBeBytes address1 address0).toNat
    let quantity := (fromBeBytes quantity1 quantity0).toNat
    if quantity = 0 ∨ 123 < quantity then (exceptionPdu function 0x03, storage)
    else if count.toNat ≠ quantity * 2 ∨ data.length < count.toNat then
      (exceptionPdu function 0x03, storage)
    else if 256 < startAddress + quantity then (exceptionPdu function 0x02, storage)
    else
      let holdingRegisters := (List.range quantity).foldl (fun registers i =>
        registers.setIfInBounds (startAddress + i)
          (fromBeBytes (data[i * 2]?.getD 0) (data[i * 2 + 1]?.getD 0))) storage.holdingRegisters
      ([function] ++ toBeBytes (BitVec.ofNat 16 startAddress) ++
          toBeBytes (BitVec.ofNat 16 quantity),
        { storage with holdingRegisters })
  | function :: _ => (exceptionPdu function 0x03, storage)
  | [] => ([], storage)

/-- Executes a PDU. An empty one has no response. -/
def processRequest (pdu : List Byte) : Option (List Byte) × ModbusStorage :=
  match pdu with
  | [] => (none, storage)
  | function :: _ =>
    match FunctionCode.fromByte function with
    | some .readCoils => (some (storage.handleReadBits pdu true), storage)
    | some .readDiscreteInputs => (some (storage.handleReadBits pdu false), storage)
    | some .readHoldingRegisters => (some (storage.handleReadRegisters pdu true), storage)
    | some .readInputRegisters => (some (storage.handleReadRegisters pdu false), storage)
    | some .writeSingleCoil => (storage.handleWriteSingleCoil pdu).map some id
    | some .writeSingleRegister => (storage.handleWriteSingleRegister pdu).map some id
    | some .writeMultipleCoils => (storage.handleWriteMultipleCoils pdu).map some id
    | some .writeMultipleRegisters => (storage.handleWriteMultipleRegisters pdu).map some id
    | none => (some (exceptionPdu function 0x01), storage)

/-- One round of the connection loop, on the bytes of a request frame. -/
def handleConnection (frame : List Byte) : List Byte × ModbusStorage :=
  match MbapHeader.fromBytes frame with
  | .error _ => ([], storage)
  | .ok header =>
    let pduLength := header.length.toNat - 1
    let pdu := (frame.drop MbapHeader.size).take pduLength
    if header.protocolId ≠ 0 ∨ pduLength = 0 ∨ 253 < pduLength then ([], storage)
    else if pdu.length < pduLength then ([], storage)
    else
      match storage.processRequest pdu with
      | (none, storage) => ([], storage)
      | (some response, storage) =>
        let header : MbapHeader :=
          ⟨header.transactionId, 0, BitVec.ofNat 16 (response.length + 1), header.unitId⟩
        (header.toBytes ++ response, storage)

end ModbusStorage

/-- `read_exact` on a stream that ends after `bytes`. -/
def readExact (bytes : List Byte) (n : Nat) : Except String (Vector Byte n) :=
  if h : n ≤ bytes.length then
    .ok ⟨(bytes.take n).toArray, by rw [List.size_toArray, List.length_take, Nat.min_eq_left h]⟩
  else .error "failed to fill whole buffer"

/-- The exchange in which a server sends these bytes. -/
def Exchange.answering (bytes : List Byte) : Exchange where
  send := .ok ()
  header := readExact bytes 7
  pdu := readExact (bytes.drop MbapHeader.size)

/-- What the driver sees of the server's answer to a frame. -/
def ModbusStorage.exchange (storage : ModbusStorage) (frame : List Byte) : Exchange :=
  .answering (storage.handleConnection frame).1

/-! ## Requests of the driver -/

section Requests

variable {storage : ModbusStorage} {address quantity : BitVec 16}

theorem length_range {α : Type} (values : Vector α 256) {startAddress count : Nat}
    (h : startAddress + count ≤ 256) :
    (ModbusStorage.range values startAddress count).length = count := by
  rw [ModbusStorage.range, List.length_take, List.length_drop, Vector.length_toList]
  omega

theorem handleReadBits_eq (function : FunctionCode) (isCoils : Bool) (hpos : quantity.toNat ≠ 0)
    (hfits : address.toNat + quantity.toNat ≤ 256) :
    storage.handleReadBits (wordsPdu function address quantity) isCoils =
      [function.code, BitVec.ofNat 8 ((quantity.toNat + 7) / 8)] ++ packCoils
        (ModbusStorage.range (if isCoils then storage.coils else storage.discreteInputs)
          address.toNat quantity.toNat) := by
  rw [wordsPdu_eq]
  simp only [toBeBytes, List.cons_append, List.nil_append, ModbusStorage.handleReadBits,
    fromBeBytes_toBeBytes]
  rw [if_neg (by omega), if_neg (by omega), packCoils_eq, length_range _ hfits]
  rfl

theorem handleReadRegisters_eq (function : FunctionCode) (isHolding : Bool)
    (hpos : quantity.toNat ≠ 0) (hle : quantity.toNat ≤ 125)
    (hfits : address.toNat + quantity.toNat ≤ 256) :
    storage.handleReadRegisters (wordsPdu function address quantity) isHolding =
      [function.code, BitVec.ofNat 8 (quantity.toNat * 2)] ++
        (ModbusStorage.range
          (if isHolding then storage.holdingRegisters else storage.inputRegisters)
          address.toNat quantity.toNat).flatMap toBeBytes := by
  rw [wordsPdu_eq]
  simp only [toBeBytes, List.cons_append, List.nil_append, ModbusStorage.handleReadRegisters,
    fromBeBytes_toBeBytes]
  rw [if_neg (by omega), if_neg (by omega)]

/-- A coil that is on is written as `0xFF00`, and the server takes nothing else for on. -/
theorem handleWriteSingleCoil_eq (value : Bool) (hfits : address.toNat < 256) :
    storage.handleWriteSingleCoil
        (wordsPdu .writeSingleCoil address (if value then 0xFF00 else 0x0000)) =
      (wordsPdu .writeSingleCoil address (if value then 0xFF00 else 0x0000),
        { storage with coils := fill storage.coils address.toNat (fun _ => value) 1 }) := by
  have hvalue : ¬ ((if value then 0xFF00 else 0x0000 : BitVec 16) ≠ 0x0000 ∧
      (if value then 0xFF00 else 0x0000 : BitVec 16) ≠ 0xFF00) := by
    cases value <;> decide
  have hon : decide ((if value then 0xFF00 else 0x0000 : BitVec 16) = 0xFF00) = value := by
    cases value <;> decide
  rw [wordsPdu_eq]
  simp only [toBeBytes, List.cons_append, List.nil_append, ModbusStorage.handleWriteSingleCoil,
    fromBeBytes_toBeBytes]
  rw [if_neg (by omega), if_neg hvalue, hon]
  rfl

theorem handleWriteSingleRegister_eq (value : BitVec 16) (hfits : address.toNat < 256) :
    storage.handleWriteSingleRegister (wordsPdu .writeSingleRegister address value) =
      (wordsPdu .writeSingleRegister address value,
        { storage with
          holdingRegisters :=
            fill storage.holdingRegisters address.toNat (fun _ => value) 1 }) := by
  rw [wordsPdu_eq]
  simp only [toBeBytes, List.cons_append, List.nil_append, ModbusStorage.handleWriteSingleRegister,
    fromBeBytes_toBeBytes]
  rw [if_neg (by omega)]
  rfl

theorem handleWriteMultipleCoils_eq {values : List Bool} (hpos : values ≠ [])
    (hfits : address.toNat + values.length ≤ 256) :
    storage.handleWriteMultipleCoils (multiplePdu .writeMultipleCoils address
        (BitVec.ofNat 16 values.length) (packCoils values)) =
      ([FunctionCode.writeMultipleCoils.code] ++ toBeBytes address ++
          toBeBytes (BitVec.ofNat 16 values.length),
        { storage with
          coils := fill storage.coils address.toNat (fun i => values[i]?.getD false)
            values.length }) := by
  have hzero : values.length ≠ 0 := fun hnil => hpos (List.length_eq_zero_iff.mp hnil)
  have hquantity : (BitVec.ofNat 16 values.length).toNat = values.length := by
    rw [BitVec.toNat_ofNat, Nat.mod_eq_of_lt (by omega)]
  have hcount : (BitVec.ofNat 8 ((values.length + 7) / 8)).toNat = (values.length + 7) / 8 := by
    rw [BitVec.toNat_ofNat, Nat.mod_eq_of_lt (by omega)]
  simp only [multiplePdu, toBeBytes, List.cons_append, List.nil_append,
    ModbusStorage.handleWriteMultipleCoils, fromBeBytes_toBeBytes, length_packCoils, hquantity,
    hcount]
  rw [if_neg (by omega), if_neg (by omega), if_neg (by omega)]
  simp only [packCoils_bit, BitVec.ofNat_toNat, BitVec.setWidth_eq]
  rfl

theorem handleWriteMultipleRegisters_eq {values : List (BitVec 16)} (hpos : values ≠ [])
    (hle : values.length ≤ 123) (hfits : address.toNat + values.length ≤ 256) :
    storage.handleWriteMultipleRegisters (multiplePdu .writeMultipleRegisters address
        (BitVec.ofNat 16 values.length) (values.flatMap toBeBytes)) =
      ([FunctionCode.writeMultipleRegisters.code] ++ toBeBytes address ++
          toBeBytes (BitVec.ofNat 16 values.length),
        { storage with
          holdingRegisters := fill storage.holdingRegisters address.toNat (fun i =>
            fromBeBytes ((values.flatMap toBeBytes)[i * 2]?.getD 0)
              ((values.flatMap toBeBytes)[i * 2 + 1]?.getD 0)) values.length }) := by
  have hzero : values.length ≠ 0 := fun hnil => hpos (List.length_eq_zero_iff.mp hnil)
  have hquantity : (BitVec.ofNat 16 values.length).toNat = values.length := by
    rw [BitVec.toNat_ofNat, Nat.mod_eq_of_lt (by omega)]
  have hcount : (BitVec.ofNat 8 (values.length * 2)).toNat = values.length * 2 := by
    rw [BitVec.toNat_ofNat, Nat.mod_eq_of_lt (by omega)]
  simp only [multiplePdu, toBeBytes, List.cons_append, List.nil_append,
    ModbusStorage.handleWriteMultipleRegisters, fromBeBytes_toBeBytes, length_flatMap_toBeBytes,
    hquantity, hcount]
  rw [if_neg (by omega), if_neg (by omega), if_neg (by omega)]
  simp only [BitVec.ofNat_toNat, BitVec.setWidth_eq]
  rfl

end Requests

end VirtualPlc.Fieldbus

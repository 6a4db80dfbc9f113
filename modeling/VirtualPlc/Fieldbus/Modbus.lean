import VirtualPlc.Fieldbus.Frame
import VirtualPlc.Runtime.IoImage

/-!
# The Modbus TCP driver

One request at a time over a connection that is dropped on I/O errors. What the network does is
given to each call: the results of `write_all` and of `read_exact`, where a read that succeeds gives
exactly as many bytes as were asked for, and the results of connecting. A connection keeps the bytes
that were read from it, so that frame boundaries can be talked about. A call that panics has no
result.
-/

set_option autoImplicit false

namespace VirtualPlc.Fieldbus

open VirtualPlc.Runtime VirtualPlc.Word

/-- I/O mapping. -/
structure ModbusMapping where
  address : BitVec 16
  quantity : BitVec 16
  function : FunctionCode
deriving DecidableEq, Repr

/-- Configuration of the driver. Instants and durations are in nanoseconds. -/
structure ModbusTcpConfig where
  unitId : Byte
  maxReconnectAttempts : BitVec 32
  reconnectDelay : Nat
  digitalInputMapping : Option ModbusMapping
  digitalOutputMapping : Option ModbusMapping
  analogInputMapping : Option ModbusMapping
  analogOutputMapping : Option ModbusMapping
deriving DecidableEq, Repr

/-- The default configuration. -/
def ModbusTcpConfig.default : ModbusTcpConfig where
  unitId := 1
  maxReconnectAttempts := 3
  reconnectDelay := 500000000
  digitalInputMapping := some ⟨0, 32, .readDiscreteInputs⟩
  digitalOutputMapping := some ⟨0, 32, .writeMultipleCoils⟩
  analogInputMapping := some ⟨0, 16, .readInputRegisters⟩
  analogOutputMapping := some ⟨0, 16, .writeMultipleRegisters⟩

/-- Connection state. -/
inductive ConnectionState where
  | disconnected
  | connected
  | reconnecting
  | failed
deriving DecidableEq, Repr

/-- A TCP connection, with the bytes read from it since it was opened. -/
structure Connection where
  received : List Byte
deriving DecidableEq, Repr

/-- The driver. `requests` are the frames written so far; no function reads them. -/
structure ModbusTcpDriver where
  config : ModbusTcpConfig
  connection : Option Connection
  state : ConnectionState
  transactionId : BitVec 16
  reconnectAttempts : BitVec 32
  inputs : FieldbusInputs
  outputs : FieldbusOutputs
  rxBuffer : Vector Byte 260
  nextReconnectTime : Option Nat
  requests : List (List Byte)
deriving DecidableEq, Repr

/-- What the network answers to one request. -/
structure Exchange where
  send : Except String Unit
  header : Except String (Vector Byte 7)
  pdu : (n : Nat) → Except String (Vector Byte n)

/-- The results of opening and configuring a TCP stream. -/
structure Connecting where
  stream : Except String Unit
  readTimeout : Except String Unit
  writeTimeout : Except String Unit
  nodelay : Except String Unit

/-- A reconnection: the time of the check, the results of connecting, and the time after a failure.
-/
structure Attempt where
  now : Nat
  connecting : Connecting
  failedAt : Nat

/-- The result of a call, with the driver after it. -/
abbrev Answer (α : Type) : Type := PlcResult α × ModbusTcpDriver

/-- `call?` followed by more. -/
def onSuccess {α β : Type} (call : Except Failure (Answer α))
    (next : α → ModbusTcpDriver → Except Failure (Answer β)) : Except Failure (Answer β) :=
  match call with
  | .error failure => .error failure
  | .ok (.error e, driver) => .ok (.error e, driver)
  | .ok (.ok value, driver) => next value driver

namespace ModbusTcpDriver

/-- A driver that has not been started. -/
def withConfig (config : ModbusTcpConfig) : ModbusTcpDriver where
  config := config
  connection := none
  state := .disconnected
  transactionId := 0
  reconnectAttempts := 0
  inputs := ⟨0, Vector.replicate 16 0⟩
  outputs := .zero
  rxBuffer := Vector.replicate 260 0
  nextReconnectTime := none
  requests := []

/-- The next transaction identifier. -/
def nextTransactionId (driver : ModbusTcpDriver) : BitVec 16 × ModbusTcpDriver :=
  let transactionId := driver.transactionId + 1
  (transactionId, { driver with transactionId := transactionId })

/-- Connects to the server. -/
def connect (driver : ModbusTcpDriver) (results : Connecting) : PlcResult Unit × ModbusTcpDriver :=
  match results.stream, results.readTimeout, results.writeTimeout, results.nodelay with
  | .error e, _, _, _ => (.error (.fieldbusError s!"Connection failed: {e}"), driver)
  | .ok (), .error e, _, _ => (.error (.fieldbusError s!"Failed to set read timeout: {e}"), driver)
  | .ok (), .ok (), .error e, _ =>
    (.error (.fieldbusError s!"Failed to set write timeout: {e}"), driver)
  | .ok (), .ok (), .ok (), .error e =>
    (.error (.fieldbusError s!"Failed to set TCP_NODELAY: {e}"), driver)
  | .ok (), .ok (), .ok (), .ok () =>
    (.ok (), { driver with
      connection := some ⟨[]⟩
      state := .connected
      reconnectAttempts := 0
      nextReconnectTime := none })

/-- Tries to reconnect, at most once per call and not before the retry delay is over. -/
def tryReconnect (driver : ModbusTcpDriver) (attempt : Attempt) :
    PlcResult Unit × ModbusTcpDriver :=
  if driver.config.maxReconnectAttempts ≤ driver.reconnectAttempts then
    (.error (.fieldbusError
        s!"Max reconnection attempts ({driver.config.maxReconnectAttempts.toNat}) exceeded"),
      { driver with state := .failed })
  else if (driver.nextReconnectTime.map fun next => decide (attempt.now < next)) = some true then
    (.error (.fieldbusError "Reconnecting: waiting for retry delay"), driver)
  else
    let driver := { driver with
      reconnectAttempts := driver.reconnectAttempts + 1
      state := .reconnecting }
    match driver.connect attempt.connecting with
    | (.ok (), driver) => (.ok (), driver)
    | (.error e, driver) =>
      (.error e, { driver with
        nextReconnectTime := some (attempt.failedAt + driver.config.reconnectDelay) })

/-- What an I/O error leaves. -/
def disconnected (driver : ModbusTcpDriver) : ModbusTcpDriver :=
  { driver with connection := none, state := .disconnected }

/-- A frame has been written. -/
def sent (driver : ModbusTcpDriver) (frame : List Byte) : ModbusTcpDriver :=
  { driver with requests := driver.requests ++ [frame] }

/-- Bytes have been read into the receive buffer. -/
def received (driver : ModbusTcpDriver) (offset : Nat) (bytes : List Byte) : ModbusTcpDriver :=
  { driver with
    connection := driver.connection.map fun conn => ⟨conn.received ++ bytes⟩
    rxBuffer := Vector.ofFn fun i =>
      if offset ≤ i.val then bytes[i.val - offset]?.getD driver.rxBuffer[i]
        else driver.rxBuffer[i] }

/-- The PDU of a response, or the error of an exception response. -/
def checkException (pdu : List Byte) : PlcResult (List Byte) :=
  match pdu with
  | [] => .ok pdu
  | function :: rest =>
    if function &&& 0x80 ≠ 0 then
      let exceptionCode :=
        match rest with
        | [] => "Unknown"
        | code :: _ =>
          match ExceptionCode.fromByte code with
          | some e => e.display
          | none => s!"Unknown (0x{upperHex 2 code.toNat})"
      .error (.fieldbusError s!"Modbus exception: {exceptionCode}")
    else .ok pdu

/-- The part of `send_request` that reads the PDU. -/
def receivePdu (driver : ModbusTcpDriver) (pduLength : Nat) (x : Exchange) :
    Except Failure (Answer (List Byte)) :=
  match driver.connection with
  | none => .ok (.error (.fieldbusError "Connection lost during receive"), driver)
  | some _ =>
    match x.pdu pduLength with
    | .error e => .ok (.error (.fieldbusError s!"Receive PDU failed: {e}"), driver.disconnected)
    | .ok bytes => do
      let driver := driver.received MbapHeader.size bytes.toList
      let pdu ← slice driver.rxBuffer.toList MbapHeader.size (MbapHeader.size + pduLength)
      return (checkException pdu, driver)

/-- The part of `send_request` that reads and checks the header. -/
def receiveResponse (b : Build) (driver : ModbusTcpDriver) (transactionId : BitVec 16)
    (x : Exchange) : Except Failure (Answer (List Byte)) :=
  match driver.connection with
  | none => .ok (.error (.fieldbusError "Connection lost during send"), driver)
  | some _ =>
    match x.header with
    | .error e => .ok (.error (.fieldbusError s!"Receive header failed: {e}"), driver.disconnected)
    | .ok bytes => do
      let driver := driver.received 0 bytes.toList
      match MbapHeader.fromBytes (← slice driver.rxBuffer.toList 0 MbapHeader.size) with
      | .error e => return (.error e, driver)
      | .ok response =>
        match response.validate transactionId driver.config.unitId with
        -- the PDU of the rejected response stays in the stream
        | .error e => return (.error e, driver)
        | .ok () =>
          let pduLength := (← u16Sub b response.length 1).toNat
          let room ← usizeSub b driver.rxBuffer.toList.length MbapHeader.size
          if room < pduLength then
            return (.error (.fieldbusError s!"Response too large: {pduLength} bytes"), driver)
          else receivePdu driver pduLength x

/-- Sends a request and receives the response. -/
def sendRequest (b : Build) (driver : ModbusTcpDriver) (pdu : List Byte) (x : Exchange) :
    Except Failure (Answer (List Byte)) :=
  if driver.connection.isNone then
    .ok (.error (.fieldbusError "Not connected to Modbus server"), driver)
  else do
    let (transactionId, driver) := driver.nextTransactionId
    let header ← MbapHeader.new b transactionId (BitVec.ofNat 16 pdu.length) driver.config.unitId
    match x.send with
    | .error e => return (.error (.fieldbusError s!"Send failed: {e}"), driver.disconnected)
    | .ok () => receiveResponse b (driver.sent (header.toBytes ++ pdu)) transactionId x

end ModbusTcpDriver

/-! ## Requests -/

/-- The PDU of a request with two words: reads and single writes. -/
def wordsPdu (function : FunctionCode) (first second : BitVec 16) : List Byte :=
  [function.code, (first >>> 8).setWidth 8, (first &&& 0xFF).setWidth 8,
    (second >>> 8).setWidth 8, (second &&& 0xFF).setWidth 8]

/-- The text of a response with another function code. -/
def functionMismatch (function : FunctionCode) (response : Byte) : PlcError :=
  .fieldbusError (s!"Function code mismatch: expected 0x{upperHex 2 function.code.toNat}, " ++
    s!"got 0x{upperHex 2 response.toNat}")

/-- Decodes the response of `read_bits`. -/
def decodeBits (b : Build) (function : FunctionCode) (quantity : BitVec 16) (response : List Byte) :
    Except Failure (PlcResult (List Bool)) := do
  if response.length < 2 then return .error (.fieldbusError "Response too short")
  else
    let responseFunction ← index response 0
    if responseFunction ≠ function.code then
      return .error (functionMismatch function responseFunction)
    else
      let byteCount := (← index response 1).toNat
      let expectedBytes := (quantity.toNat + 7) / 8
      if byteCount < expectedBytes then
        return .error (.fieldbusError (s!"Byte count mismatch: expected at least " ++
          s!"{expectedBytes} bytes for {quantity.toNat} bits, got {byteCount}"))
      else if response.length < 2 + byteCount then
        let got ← usizeSub b response.length 2
        return .error (.fieldbusError s!"Expected {byteCount} data bytes, got {got}")
      else
        let bits ← (List.range quantity.toNat).mapM fun i => do
          let byte ← index response (2 + i / 8)
          return decide ((byte >>> (i % 8)) &&& 1 ≠ 0)
        return .ok bits

/-- Decodes the response of `read_registers`. -/
def decodeRegisters (function : FunctionCode) (quantity : BitVec 16) (response : List Byte) :
    Except Failure (PlcResult (List (BitVec 16))) := do
  if response.length < 2 then return .error (.fieldbusError "Response too short")
  else
    let responseFunction ← index response 0
    if responseFunction ≠ function.code then
      return .error (functionMismatch function responseFunction)
    else
      let byteCount := (← index response 1).toNat
      let expectedBytes := quantity.toNat * 2
      if byteCount ≠ expectedBytes then
        return .error (.fieldbusError s!"Expected {expectedBytes} bytes, got {byteCount}")
      else if response.length < 2 + byteCount then
        return .error (.fieldbusError s!"Response too short: expected {2 + byteCount} bytes")
      else
        let registers ← (List.range quantity.toNat).mapM fun i => do
          let offset := 2 + i * 2
          return fromBeBytes (← index response offset) (← index response (offset + 1))
        return .ok registers

/-- Decodes the response of a write: the function code and two words that `compare` checks. -/
def decodeEcho (function : FunctionCode) (compare : BitVec 16 → BitVec 16 → PlcResult Unit)
    (response : List Byte) : Except Failure (PlcResult Unit) := do
  if response.length < 5 then return .error (.fieldbusError "Response too short")
  else
    let responseFunction ← index response 0
    if responseFunction ≠ function.code then
      return .error (functionMismatch function responseFunction)
    else
      let first := fromBeBytes (← index response 1) (← index response 2)
      let second := fromBeBytes (← index response 3) (← index response 4)
      return compare first second

/-- The comparison of a single write, which echoes its request. -/
def compareSingle (what : String) (address value respAddress respValue : BitVec 16) :
    PlcResult Unit :=
  if respAddress ≠ address then
    .error (.fieldbusError (s!"Write single {what} address mismatch: expected " ++
      s!"{address.toNat}, got {respAddress.toNat}"))
  else if respValue ≠ value then
    .error (.fieldbusError (s!"Write single {what} value mismatch: expected " ++
      s!"0x{upperHex 4 value.toNat}, got 0x{upperHex 4 respValue.toNat}"))
  else .ok ()

/-- The comparison of a multiple write, which answers with address and quantity. -/
def compareMultiple (what : String) (address quantity respAddress respQuantity : BitVec 16) :
    PlcResult Unit :=
  if respAddress ≠ address ∨ respQuantity ≠ quantity then
    .error (.fieldbusError (s!"Write {what} response mismatch: " ++
      s!"addr={respAddress.toNat}/{address.toNat}, qty={respQuantity.toNat}/{quantity.toNat}"))
  else .ok ()

/-- Packs coils into bytes, the first one in the lowest bit. -/
def packCoils (values : List Bool) : List Byte :=
  values.zipIdx.foldl
    (fun data (value, i) => if value then data.modify (i / 8) (· ||| 1 <<< (i % 8)) else data)
    (List.replicate ((values.length + 7) / 8) 0)

/-- Packs at most 32 bits into a word. -/
def packBits (bits : List Bool) : BitVec 32 :=
  (bits.take 32).zipIdx.foldl
    (fun digital (bit, i) => if bit then digital ||| 1 <<< i else digital) 0

/-- Stores at most 16 registers; the other channels keep their values. -/
def storeRegisters (analog : Vector (BitVec 16) 16) (registers : List (BitVec 16)) :
    Vector (BitVec 16) 16 :=
  (registers.take 16).zipIdx.foldl (fun analog (value, i) => analog.setIfInBounds i value) analog

namespace ModbusTcpDriver

/-- Sends a request and decodes its response. -/
def request {α : Type} (b : Build) (driver : ModbusTcpDriver) (pdu : List Byte)
    (decode : List Byte → Except Failure (PlcResult α)) (x : Exchange) :
    Except Failure (Answer α) :=
  onSuccess (sendRequest b driver pdu x) fun response driver => do
    let result ← decode response
    return (result, driver)

/-- Reads coils or discrete inputs. -/
def readBits (b : Build) (driver : ModbusTcpDriver) (function : FunctionCode)
    (address quantity : BitVec 16) (x : Exchange) : Except Failure (Answer (List Bool)) :=
  driver.request b (wordsPdu function address quantity) (decodeBits b function quantity) x

/-- Reads holding registers or input registers. -/
def readRegisters (b : Build) (driver : ModbusTcpDriver) (function : FunctionCode)
    (address quantity : BitVec 16) (x : Exchange) : Except Failure (Answer (List (BitVec 16))) :=
  driver.request b (wordsPdu function address quantity) (decodeRegisters function quantity) x

/-- Writes a single coil. -/
def writeSingleCoil (b : Build) (driver : ModbusTcpDriver) (address : BitVec 16) (value : Bool)
    (x : Exchange) : Except Failure (Answer Unit) :=
  let coilValue : BitVec 16 := if value then 0xFF00 else 0x0000
  driver.request b (wordsPdu .writeSingleCoil address coilValue)
    (decodeEcho .writeSingleCoil (compareSingle "coil" address coilValue)) x

/-- Writes a single register. -/
def writeSingleRegister (b : Build) (driver : ModbusTcpDriver) (address value : BitVec 16)
    (x : Exchange) : Except Failure (Answer Unit) :=
  driver.request b (wordsPdu .writeSingleRegister address value)
    (decodeEcho .writeSingleRegister (compareSingle "register" address value)) x

/-- The PDU of a multiple write. -/
def multiplePdu (function : FunctionCode) (address quantity : BitVec 16) (data : List Byte) :
    List Byte :=
  [function.code] ++ toBeBytes address ++ toBeBytes quantity ++ [BitVec.ofNat 8 data.length] ++ data

/-- Writes coils, a single one with its own function code. -/
def writeCoils (b : Build) (driver : ModbusTcpDriver) (address : BitVec 16) (values : List Bool)
    (x : Exchange) : Except Failure (Answer Unit) :=
  match values with
  | [] => .ok (.error (.fieldbusError "Cannot write zero coils"), driver)
  | [value] => driver.writeSingleCoil b address value x
  | values =>
    let quantity := BitVec.ofNat 16 values.length
    driver.request b (multiplePdu .writeMultipleCoils address quantity (packCoils values))
      (decodeEcho .writeMultipleCoils (compareMultiple "coils" address quantity)) x

/-- Writes registers, a single one with its own function code. -/
def writeRegisters (b : Build) (driver : ModbusTcpDriver) (address : BitVec 16)
    (values : List (BitVec 16)) (x : Exchange) : Except Failure (Answer Unit) :=
  match values with
  | [] => .ok (.error (.fieldbusError "Cannot write zero registers"), driver)
  | [value] => driver.writeSingleRegister b address value x
  | values =>
    let quantity := BitVec.ofNat 16 values.length
    driver.request b
      (multiplePdu .writeMultipleRegisters address quantity (values.flatMap toBeBytes))
      (decodeEcho .writeMultipleRegisters (compareMultiple "registers" address quantity)) x

/-! ## Process data -/

/-- Reads the digital inputs of the mapping. -/
def readDigitalInputs (b : Build) (driver : ModbusTcpDriver) (x : Exchange) :
    Except Failure (Answer Unit) :=
  match driver.config.digitalInputMapping with
  | none => .ok (.ok (), driver)
  | some mapping =>
    onSuccess (driver.readBits b mapping.function mapping.address mapping.quantity x)
      fun bits driver =>
        .ok (.ok (), { driver with inputs := { driver.inputs with digital := packBits bits } })

/-- Reads the analog inputs of the mapping. -/
def readAnalogInputs (b : Build) (driver : ModbusTcpDriver) (x : Exchange) :
    Except Failure (Answer Unit) :=
  match driver.config.analogInputMapping with
  | none => .ok (.ok (), driver)
  | some mapping =>
    onSuccess (driver.readRegisters b mapping.function mapping.address mapping.quantity x)
      fun registers driver =>
        .ok (.ok (), { driver with
          inputs := { driver.inputs with
            analog := storeRegisters driver.inputs.analog registers } })

/-- Writes the digital outputs of the mapping. -/
def writeDigitalOutputs (b : Build) (driver : ModbusTcpDriver) (x : Exchange) :
    Except Failure (Answer Unit) :=
  match driver.config.digitalOutputMapping with
  | none => .ok (.ok (), driver)
  | some mapping => do
    let bits ← (List.range mapping.quantity.toNat).mapM fun i => do
      let shifted ← u32Shr b driver.outputs.digital i
      return decide (shifted &&& 1 ≠ 0)
    driver.writeCoils b mapping.address bits x

/-- Writes the analog outputs of the mapping. -/
def writeAnalogOutputs (b : Build) (driver : ModbusTcpDriver) (x : Exchange) :
    Except Failure (Answer Unit) :=
  match driver.config.analogOutputMapping with
  | none => .ok (.ok (), driver)
  | some mapping =>
    driver.writeRegisters b mapping.address
      (driver.outputs.analog.toList.take mapping.quantity.toNat) x

/-- What the network does during `read_inputs` or `write_outputs`: the reconnection and the answers
to the digital and to the analog request, as far as they are made. -/
structure Network where
  attempt : Attempt
  digital : Exchange
  analog : Exchange

/-- Reconnects a driver that is not connected. -/
def ensureConnected (driver : ModbusTcpDriver) (net : Network) : PlcResult Unit × ModbusTcpDriver :=
  if driver.state ≠ .connected then driver.tryReconnect net.attempt else (.ok (), driver)

/-- Connects for the first time. -/
def init (driver : ModbusTcpDriver) (results : Connecting) : PlcResult Unit × ModbusTcpDriver :=
  driver.connect results

/-- Reads the digital and the analog inputs. -/
def readInputs (b : Build) (driver : ModbusTcpDriver) (net : Network) :
    Except Failure (Answer Unit) :=
  onSuccess (.ok (driver.ensureConnected net)) fun _ driver =>
    onSuccess (driver.readDigitalInputs b net.digital) fun _ driver =>
      driver.readAnalogInputs b net.analog

/-- Writes the digital and the analog outputs. -/
def writeOutputs (b : Build) (driver : ModbusTcpDriver) (net : Network) :
    Except Failure (Answer Unit) :=
  onSuccess (.ok (driver.ensureConnected net)) fun _ driver =>
    onSuccess (driver.writeDigitalOutputs b net.digital) fun _ driver =>
      driver.writeAnalogOutputs b net.analog

/-- The input image of the daemon. -/
def getInputs (driver : ModbusTcpDriver) : FieldbusInputs := driver.inputs

/-- Sets the outputs of the next write. -/
def setOutputs (driver : ModbusTcpDriver) (outputs : FieldbusOutputs) : ModbusTcpDriver :=
  { driver with outputs := outputs }

/-- Closes the connection. -/
def shutdown (driver : ModbusTcpDriver) : PlcResult Unit × ModbusTcpDriver :=
  (.ok (), driver.disconnected)

end ModbusTcpDriver

end VirtualPlc.Fieldbus

import Mathlib.Logic.Function.Basic
import VirtualPlc.Fieldbus.RoundTrip
import VirtualPlc.Word.Packing

/-!
# Stations on one server

Any number of drivers share a server, and their requests arrive in any order. Each request acts on
the storage of the server as one step (`ask_spec`). Stations whose outputs are mapped to areas of
their own never lose an update, and what a station reads is what the station of that area has
written last (`last_write_read`).
-/

set_option autoImplicit false

namespace VirtualPlc.Fieldbus

open VirtualPlc.Runtime VirtualPlc.Word ModbusTcpDriver ModbusStorage

variable {b : Build} {d d' : ModbusTcpDriver} {storage storage' : ModbusStorage}

/-! ## Areas -/

section Areas

variable {α : Type} {n : Nat}

/-- Only the values that are filled in matter. -/
theorem fill_congr (v : Vector α n) (start : Nat) {value value' : Nat → α} {count : Nat}
    (h : ∀ i < count, value i = value' i) :
    fill v start value count = fill v start value' count := by
  apply Vector.ext
  intro j hj
  rw [getElem_fill _ _ _ _ hj, getElem_fill _ _ _ _ hj]
  split
  · next hinside => exact h _ (by omega)
  · rfl

/-- A part of the storage that lies apart from what is filled stays as it is. -/
theorem range_fill_apart (v : Vector α 256) {start count startAddress quantity : Nat}
    (value : Nat → α) (hapart : (⟨start, count⟩ : Span).Disjoint ⟨startAddress, quantity⟩) :
    range (fill v start value count) startAddress quantity = range v startAddress quantity := by
  apply List.ext_getElem?
  intro i
  rw [range, range, List.getElem?_take, List.getElem?_take, List.getElem?_drop, List.getElem?_drop]
  split
  · next hi =>
    rw [Vector.getElem?_toList, Vector.getElem?_toList]
    by_cases hin : startAddress + i < 256
    · rw [Vector.getElem?_eq_getElem hin, Vector.getElem?_eq_getElem hin, getElem_fill _ _ _ _ hin,
        if_neg]
      rintro ⟨hlow, hhigh⟩
      exact hapart (startAddress + i) hlow hhigh (Nat.le_add_right _ _)
        (Nat.add_lt_add_left hi startAddress)
    · rw [Vector.getElem?_eq_none (by omega), Vector.getElem?_eq_none (by omega)]
  · rfl

end Areas

/-! ## Requests -/

/-- A request of a station. -/
inductive StationRequest where
  | writeDigital
  | writeAnalog
  | readDigital
  | readAnalog

namespace StationRequest

/-- The driver's part of a request. -/
def call (b : Build) (d : ModbusTcpDriver) :
    StationRequest → Exchange → Except Failure (Answer Unit)
  | .writeDigital => d.writeDigitalOutputs b
  | .writeAnalog => d.writeAnalogOutputs b
  | .readDigital => d.readDigitalInputs b
  | .readAnalog => d.readAnalogInputs b

/-- What a request does to the storage: a write fills the area that it is mapped to. -/
def effect (d : ModbusTcpDriver) (storage : ModbusStorage) : StationRequest → ModbusStorage
  | .writeDigital =>
    match d.config.digitalOutputMapping with
    | none => storage
    | some mapping => { storage with
      coils := fill storage.coils mapping.address.toNat d.outputs.digital.getLsbD
        mapping.quantity.toNat }
  | .writeAnalog =>
    match d.config.analogOutputMapping with
    | none => storage
    | some mapping => { storage with
      holdingRegisters := fill storage.holdingRegisters mapping.address.toNat
        (fun i => d.outputs.analog[i]?.getD 0) mapping.quantity.toNat }
  | .readDigital | .readAnalog => storage

/-- The inputs after a request: a read takes the area that it is mapped to. -/
def taken (d : ModbusTcpDriver) (storage : ModbusStorage) : StationRequest → FieldbusInputs
  | .writeDigital | .writeAnalog => d.inputs
  | .readDigital =>
    match d.config.digitalInputMapping with
    | none => d.inputs
    | some mapping => { d.inputs with
      digital := packBits (range storage.coils mapping.address.toNat mapping.quantity.toNat) }
  | .readAnalog =>
    match d.config.analogInputMapping with
    | none => d.inputs
    | some mapping => { d.inputs with
      analog := storeRegisters d.inputs.analog
        (range storage.holdingRegisters mapping.address.toNat mapping.quantity.toNat) }

end StationRequest

/-- Outputs within the process image and inputs from coils and registers, within the addresses of
the server. -/
structure Wired (config : ModbusTcpConfig) : Prop where
  digitalOutput : ∀ mapping, config.digitalOutputMapping = some mapping →
    ModbusTcpDriver.Fits mapping 32
  analogOutput : ∀ mapping, config.analogOutputMapping = some mapping →
    ModbusTcpDriver.Fits mapping 16
  digitalInput : ∀ mapping, config.digitalInputMapping = some mapping →
    mapping.function = .readCoils ∧ ModbusTcpDriver.Fits mapping 256
  analogInput : ∀ mapping, config.analogInputMapping = some mapping →
    mapping.function = .readHoldingRegisters ∧ ModbusTcpDriver.Fits mapping 125

/-- The driver is connected. -/
structure Online (d : ModbusTcpDriver) : Prop where
  state : d.state = .connected
  connection : d.connection.isSome = true

/-- What no request changes. -/
structure Same (d d' : ModbusTcpDriver) : Prop where
  config : d'.config = d.config
  outputs : d'.outputs = d.outputs
  online : Online d'

/-! ## Writes -/

variable {address : BitVec 16}

/-- A single write is answered by its request, and leaves the inputs alone. -/
theorem singleWrite_keeps {function : FunctionCode} {what : String} {value : BitVec 16}
    (hconn : d.connection.isSome = true)
    (hserver : storage.processRequest (wordsPdu function address value) =
      (some (wordsPdu function address value), storage')) :
    ∃ d', Served storage d (wordsPdu function address value)
      (d.request b (wordsPdu function address value)
        (decodeEcho function (compareSingle what address value))) () d' storage' ∧
      d'.inputs = d.inputs := by
  have hdecode := decodeEcho_eq function (compareSingle what address value) address value
  rw [compareSingle_self, ← wordsPdu_eq] at hdecode
  exact request_served hconn (List.cons_ne_nil _ _) (length_wordsPdu_le _ _ _) hserver
    (length_wordsPdu_le _ _ _) (checkException_code _ _) hdecode

/-- A multiple write is answered by its address and quantity, and leaves the inputs alone. -/
theorem multipleWrite_keeps {function : FunctionCode} {what : String} {quantity : BitVec 16}
    {data : List Byte} (hconn : d.connection.isSome = true) (hlen : data.length ≤ 247)
    (hserver : storage.processRequest (multiplePdu function address quantity data) =
      (some ([function.code] ++ toBeBytes address ++ toBeBytes quantity), storage')) :
    ∃ d', Served storage d (multiplePdu function address quantity data)
      (d.request b (multiplePdu function address quantity data)
        (decodeEcho function (compareMultiple what address quantity))) () d' storage' ∧
      d'.inputs = d.inputs := by
  have hdecode := decodeEcho_eq function (compareMultiple what address quantity) address quantity
  rw [compareMultiple_self] at hdecode
  have hlong : (multiplePdu function address quantity data).length ≤ 253 := by
    simp only [multiplePdu, List.length_append, List.length_singleton, length_toBeBytes]
    omega
  have hshort : ([function.code] ++ toBeBytes address ++ toBeBytes quantity).length ≤ 253 := by
    rw [length_echo]
    decide
  exact request_served hconn (List.cons_ne_nil _ _) hlong hserver hshort (checkException_code _ _)
    hdecode

/-- The driver's frame makes the server fill the coils, in either form. -/
theorem writeCoils_fills (storage : ModbusStorage) {values : List Bool}
    (hconn : d.connection.isSome = true) (hpos : values ≠ [])
    (hfits : address.toNat + values.length ≤ 256) :
    ∃ d', Served storage d (Request.writeCoils address values).bytes
      (d.writeCoils b address values) () d' { storage with
        coils := fill storage.coils address.toNat (fun i => values[i]?.getD false)
          values.length } ∧ d'.inputs = d.inputs := by
  match values, hpos, hfits with
  | [value], _, hfits =>
    have hfill : fill storage.coils address.toNat (fun i => [value][i]?.getD false) 1 =
        fill storage.coils address.toNat (fun _ => value) 1 := by
      apply fill_congr
      intro i hi
      obtain rfl : i = 0 := by omega
      rfl
    rw [List.length_singleton, hfill]
    exact singleWrite_keeps hconn
      (congrArg (Prod.map some id) (handleWriteSingleCoil_eq value hfits))
  | v₁ :: v₂ :: rest, hpos, hfits =>
    have hlen : (packCoils (v₁ :: v₂ :: rest)).length ≤ 247 := by
      rw [length_packCoils]
      omega
    exact multipleWrite_keeps hconn hlen
      (congrArg (Prod.map some id) (handleWriteMultipleCoils_eq hpos hfits))

/-- And the registers. -/
theorem writeRegisters_fills (storage : ModbusStorage) {values : List (BitVec 16)}
    (hconn : d.connection.isSome = true) (hpos : values ≠ []) (hle : values.length ≤ 123)
    (hfits : address.toNat + values.length ≤ 256) :
    ∃ d', Served storage d (Request.writeRegisters address values).bytes
      (d.writeRegisters b address values) () d' { storage with
        holdingRegisters := fill storage.holdingRegisters address.toNat
          (fun i => values[i]?.getD 0) values.length } ∧ d'.inputs = d.inputs := by
  match values, hpos, hle, hfits with
  | [value], _, _, hfits =>
    have hfill : fill storage.holdingRegisters address.toNat (fun i => [value][i]?.getD 0) 1 =
        fill storage.holdingRegisters address.toNat (fun _ => value) 1 := by
      apply fill_congr
      intro i hi
      obtain rfl : i = 0 := by omega
      rfl
    rw [List.length_singleton, hfill]
    exact singleWrite_keeps hconn
      (congrArg (Prod.map some id) (handleWriteSingleRegister_eq value hfits))
  | v₁ :: v₂ :: rest, hpos, hle, hfits =>
    have hlen : ((v₁ :: v₂ :: rest).flatMap toBeBytes).length ≤ 247 := by
      rw [length_flatMap_toBeBytes]
      omega
    have hfill : fill storage.holdingRegisters address.toNat
        (fun i => (v₁ :: v₂ :: rest)[i]?.getD 0) (v₁ :: v₂ :: rest).length =
        fill storage.holdingRegisters address.toNat (fun i =>
          fromBeBytes (((v₁ :: v₂ :: rest).flatMap toBeBytes)[i * 2]?.getD 0)
            (((v₁ :: v₂ :: rest).flatMap toBeBytes)[i * 2 + 1]?.getD 0))
          (v₁ :: v₂ :: rest).length := by
      apply fill_congr
      intro i hi
      rw [fromBeBytes_flatMap _ hi, List.getElem?_eq_getElem hi, Option.getD_some]
    rw [hfill]
    exact multipleWrite_keeps hconn hlen
      (congrArg (Prod.map some id) (handleWriteMultipleRegisters_eq hpos hle hfits))

/-! ## Answers -/

/-- A request of a driver and what is left of it: the server has answered the frame that the driver
has written, or the driver does not use the network at all. -/
inductive Takes (b : Build) (storage : ModbusStorage) (d : ModbusTcpDriver)
    (request : StationRequest) (d' : ModbusTcpDriver) : ModbusStorage → Prop where
  | answered {frame : List Byte} {r : PlcResult Unit}
      (hcall : request.call b d (storage.exchange frame) = .ok (r, d'))
      (hsent : d'.requests = d.requests ++ [frame]) :
      Takes b storage d request d' (storage.handleConnection frame).2
  | silent {r : PlcResult Unit} (hcall : ∀ x, request.call b d x = .ok (r, d'))
      (hsent : d'.requests = d.requests) : Takes b storage d request d' storage

/-- What is left of a request, whichever way it went. -/
structure Done (storage : ModbusStorage) (d : ModbusTcpDriver) (request : StationRequest)
    (d' : ModbusTcpDriver) (storage' : ModbusStorage) : Prop where
  stored : storage' = request.effect d storage
  inputs : d'.inputs = request.taken d storage
  same : Same d d'

/-- A request that is answered acts as one step: it has its effect on the storage, and the driver
takes what the storage holds. -/
structure Acts (b : Build) (storage : ModbusStorage) (d : ModbusTcpDriver)
    (request : StationRequest) : Prop where
  answered : ∃ d' storage', Takes b storage d request d' storage'
  done : ∀ d' storage', Takes b storage d request d' storage' →
    Done storage d request d' storage'

variable {request : StationRequest}

theorem append_frame_ne (frames : List (List Byte)) (frame : List Byte) :
    frames ++ [frame] ≠ frames := by
  intro h
  have hlength := congrArg List.length h
  rw [List.length_append, List.length_singleton] at hlength
  omega

theorem Same.of_asked {frame : List Byte} (hd : Online d) (h : Asked d frame d') : Same d d' :=
  ⟨h.config, h.outputs, ⟨h.state.trans hd.state, h.connection⟩⟩

/-- The driver writes one frame only, so there is one answer. -/
theorem Takes.eq_of_served {pdu : List Byte} {d₁ : ModbusTcpDriver} {storage₁ : ModbusStorage}
    (h : Takes b storage d request d' storage')
    (hserved : Served storage d pdu (request.call b d) () d₁ storage₁)
    (hsends : Sends d pdu (request.call b d)) : d' = d₁ ∧ storage' = storage₁ := by
  cases h with
  | answered hcall hsent =>
    rcases (hsends _ _ _ hcall).requests with hwritten | ⟨hnone, -⟩
    · rw [hsent] at hwritten
      cases List.append_cancel_left hwritten
      rw [hserved.result] at hcall
      cases hcall
      exact ⟨rfl, hserved.stored⟩
    · -- a frame is written or it is not
      rw [hsent] at hnone
      exact absurd hnone (append_frame_ne _ _)
  | silent hcall hsent =>
    have hresult := (hcall _).symm.trans hserved.result
    cases hresult
    rw [hserved.asked.requests] at hsent
    exact absurd hsent (append_frame_ne _ _)

/-- The request is answered, and in one way. -/
theorem answered_spec (request : StationRequest) {pdu : List Byte} {d₁ : ModbusTcpDriver}
    (hd : Online d)
    (hserved : Served storage d pdu (request.call b d) () d₁ (request.effect d storage))
    (hsends : Sends d pdu (request.call b d)) (hinputs : d₁.inputs = request.taken d storage) :
    Acts b storage d request := by
  refine ⟨⟨d₁, _, .answered hserved.result hserved.asked.requests⟩, ?_⟩
  intro d' storage' h
  obtain ⟨rfl, rfl⟩ := h.eq_of_served hserved hsends
  exact ⟨rfl, hinputs, .of_asked hd hserved.asked⟩

/-- A request that is not mapped does nothing. -/
theorem silent_spec (hd : Online d) (hcall : ∀ x, request.call b d x = .ok (.ok (), d))
    (heffect : request.effect d storage = storage) (htaken : request.taken d storage = d.inputs) :
    Acts b storage d request := by
  refine ⟨⟨d, storage, .silent hcall rfl⟩, ?_⟩
  intro d' storage' h
  cases h with
  | answered hanswered hsent =>
    rw [hcall] at hanswered
    cases hanswered
    exact absurd hsent.symm (append_frame_ne _ _)
  | silent hsilent =>
    have hresult := (hsilent (storage.exchange [])).symm.trans (hcall _)
    cases hresult
    exact ⟨heffect.symm, htaken.symm, rfl, rfl, hd⟩

section

variable (b : Build) (storage : ModbusStorage) (hd : Online d) (hw : Wired d.config)

include hd hw

theorem writeDigital_acts : Acts b storage d .writeDigital := by
  cases hmapping : d.config.digitalOutputMapping with
  | none =>
    refine silent_spec hd (fun x => ?_) ?_ rfl
    · simp only [StationRequest.call, writeDigitalOutputs, hmapping]
    · simp only [StationRequest.effect, hmapping]
  | some mapping =>
    obtain ⟨hpos, hle, hin⟩ := hw.digitalOutput mapping hmapping
    have hlength := length_outputBits d.outputs mapping.quantity
    have hne : outputBits d.outputs mapping.quantity ≠ [] := by
      rw [← List.length_pos_iff, hlength]
      exact hpos
    have hcall : StationRequest.writeDigital.call b d =
        d.writeCoils b mapping.address (outputBits d.outputs mapping.quantity) :=
      funext fun x => writeDigitalOutputs_eq hmapping hle
    obtain ⟨d₁, hserved, hinputs⟩ := writeCoils_fills (b := b) storage hd.connection hne
      (by rw [hlength]; exact hin)
    have heffect : StationRequest.writeDigital.effect d storage = { storage with
        coils := fill storage.coils mapping.address.toNat
          (fun i => (outputBits d.outputs mapping.quantity)[i]?.getD false)
          (outputBits d.outputs mapping.quantity).length } := by
      simp only [StationRequest.effect, hmapping]
      rw [hlength]
      congr 1
      apply fill_congr
      intro i hi
      rw [outputBits, List.getElem?_map, List.getElem?_range hi]
      rfl
    rw [← hcall, ← heffect] at hserved
    exact answered_spec .writeDigital hd hserved (hcall ▸ writeCoils_sends hne) hinputs

theorem writeAnalog_acts : Acts b storage d .writeAnalog := by
  cases hmapping : d.config.analogOutputMapping with
  | none =>
    refine silent_spec hd (fun x => ?_) ?_ rfl
    · simp only [StationRequest.call, writeAnalogOutputs, hmapping]
    · simp only [StationRequest.effect, hmapping]
  | some mapping =>
    obtain ⟨hpos, hle, hin⟩ := hw.analogOutput mapping hmapping
    have hlength := length_outputRegisters d.outputs hle
    have hne : outputRegisters d.outputs mapping.quantity ≠ [] := by
      rw [← List.length_pos_iff, hlength]
      exact hpos
    have hcall : StationRequest.writeAnalog.call b d =
        d.writeRegisters b mapping.address (outputRegisters d.outputs mapping.quantity) :=
      funext fun x => writeAnalogOutputs_eq hmapping
    obtain ⟨d₁, hserved, hinputs⟩ := writeRegisters_fills (b := b) storage hd.connection hne
      (by rw [hlength]; omega) (by rw [hlength]; exact hin)
    have heffect : StationRequest.writeAnalog.effect d storage = { storage with
        holdingRegisters := fill storage.holdingRegisters mapping.address.toNat
          (fun i => (outputRegisters d.outputs mapping.quantity)[i]?.getD 0)
          (outputRegisters d.outputs mapping.quantity).length } := by
      simp only [StationRequest.effect, hmapping]
      rw [hlength]
      congr 1
      apply fill_congr
      intro i hi
      rw [outputRegisters, List.getElem?_take_of_lt hi, Vector.getElem?_toList]
    rw [← hcall, ← heffect] at hserved
    exact answered_spec .writeAnalog hd hserved (hcall ▸ writeRegisters_sends hne) hinputs

theorem readDigital_acts : Acts b storage d .readDigital := by
  cases hmapping : d.config.digitalInputMapping with
  | none =>
    refine silent_spec hd (fun x => ?_) rfl ?_
    · simp only [StationRequest.call, readDigitalInputs, hmapping]
    · simp only [StationRequest.taken, hmapping]
  | some mapping =>
    obtain ⟨hfunction, hpos, hle, hin⟩ := hw.digitalInput mapping hmapping
    obtain ⟨d₁, hread, hinputs⟩ := readCoils_served (b := b) storage hd.connection
      (Nat.ne_of_gt hpos) hin
    have hserved := hread.store fun bits inputs => { inputs with digital := packBits bits }
    rw [← hfunction, ← funext fun x => readDigitalInputs_eq (x := x) hmapping] at hserved
    refine answered_spec .readDigital hd hserved (readDigitalInputs_sends hmapping) ?_
    simp only [StationRequest.taken, hmapping, hinputs]

theorem readAnalog_acts : Acts b storage d .readAnalog := by
  cases hmapping : d.config.analogInputMapping with
  | none =>
    refine silent_spec hd (fun x => ?_) rfl ?_
    · simp only [StationRequest.call, readAnalogInputs, hmapping]
    · simp only [StationRequest.taken, hmapping]
  | some mapping =>
    obtain ⟨hfunction, hpos, hle, hin⟩ := hw.analogInput mapping hmapping
    obtain ⟨d₁, hread, hinputs⟩ := readHoldingRegisters_served (b := b) storage hd.connection
      (Nat.ne_of_gt hpos) hle hin
    have hserved := hread.store fun registers inputs =>
      { inputs with analog := storeRegisters inputs.analog registers }
    rw [← hfunction, ← funext fun x => readAnalogInputs_eq (x := x) hmapping] at hserved
    refine answered_spec .readAnalog hd hserved (readAnalogInputs_sends hmapping) ?_
    simp only [StationRequest.taken, hmapping, hinputs]

/-- Every request of a connected driver acts as one step. -/
theorem ask_spec (request : StationRequest) : Acts b storage d request := by
  cases request with
  | writeDigital => exact writeDigital_acts b storage hd hw
  | writeAnalog => exact writeAnalog_acts b storage hd hw
  | readDigital => exact readDigital_acts b storage hd hw
  | readAnalog => exact readAnalog_acts b storage hd hw

end

/-! ## Stations -/

/-- The addresses of a mapping. -/
def ModbusMapping.span (mapping : ModbusMapping) : Span :=
  ⟨mapping.address.toNat, mapping.quantity.toNat⟩

/-- The area of a mapping is part of another one. -/
structure ModbusMapping.Within (part mapping : ModbusMapping) : Prop where
  start : mapping.address.toNat ≤ part.address.toNat
  stop : part.span.stop ≤ mapping.span.stop

/-- Where a part starts within a mapping. -/
def ModbusMapping.offset (part mapping : ModbusMapping) : Nat :=
  part.address.toNat - mapping.address.toNat

/-- The server, and the drivers of the stations. -/
structure Floor (ι : Type) where
  storage : ModbusStorage
  drivers : ι → ModbusTcpDriver

/-- What a station does. -/
inductive Turn (ι : Type) where
  | set (station : ι) (outputs : FieldbusOutputs)
  | ask (station : ι) (request : StationRequest)

/-- What the stations are to show: the outputs of each one, and those that it has written last. -/
structure Board (ι : Type) where
  outputs : ι → FieldbusOutputs
  digital : ι → Option FieldbusOutputs
  analog : ι → Option FieldbusOutputs

section Stations

variable {ι : Type} [DecidableEq ι]

/-- One turn on the board. Reads leave it as it is. -/
def Board.take (board : Board ι) : Turn ι → Board ι
  | .set k outputs => { board with outputs := Function.update board.outputs k outputs }
  | .ask k .writeDigital =>
    { board with digital := Function.update board.digital k (some (board.outputs k)) }
  | .ask k .writeAnalog =>
    { board with analog := Function.update board.analog k (some (board.outputs k)) }
  | .ask _ .readDigital | .ask _ .readAnalog => board

namespace Floor

/-- The board before anything has been written. -/
def board (f : Floor ι) : Board ι where
  outputs k := (f.drivers k).outputs
  digital _ := none
  analog _ := none

/-- One turn of a station. -/
inductive Step (b : Build) (f : Floor ι) : Turn ι → Floor ι → Prop where
  | set (k : ι) (outputs : FieldbusOutputs) : Step b f (.set k outputs)
      ⟨f.storage, Function.update f.drivers k ((f.drivers k).setOutputs outputs)⟩
  | ask {k : ι} {request : StationRequest} {d' : ModbusTcpDriver} {storage' : ModbusStorage}
      (h : Takes b f.storage (f.drivers k) request d' storage') :
      Step b f (.ask k request) ⟨storage', Function.update f.drivers k d'⟩

/-- Turns of the stations in any order. -/
inductive Run (b : Build) : Floor ι → List (Turn ι) → Floor ι → Prop where
  | nil (f : Floor ι) : Run b f [] f
  | cons {f f₁ f₂ : Floor ι} {turn : Turn ι} {turns : List (Turn ι)} (first : Step b f turn f₁)
      (rest : Run b f₁ turns f₂) : Run b f (turn :: turns) f₂

end Floor

/-- The outputs of different stations are mapped to areas of their own. -/
structure Apart (config : ι → ModbusTcpConfig) : Prop where
  coils : ∀ ⦃j k : ι⦄, j ≠ k → ∀ m m', (config j).digitalOutputMapping = some m →
    (config k).digitalOutputMapping = some m' → m.span.Disjoint m'.span
  registers : ∀ ⦃j k : ι⦄, j ≠ k → ∀ m m', (config j).analogOutputMapping = some m →
    (config k).analogOutputMapping = some m' → m.span.Disjoint m'.span

/-- The stations are connected, and the server holds what the board says. -/
structure Floor.Shows (config : ι → ModbusTcpConfig) (f : Floor ι) (board : Board ι) : Prop where
  online : ∀ k, Online (f.drivers k)
  configured : ∀ k, (f.drivers k).config = config k
  outputs : ∀ k, (f.drivers k).outputs = board.outputs k
  coils : ∀ k m o, (config k).digitalOutputMapping = some m → board.digital k = some o →
    range f.storage.coils m.address.toNat m.quantity.toNat = outputBits o m.quantity
  registers : ∀ k m o, (config k).analogOutputMapping = some m → board.analog k = some o →
    range f.storage.holdingRegisters m.address.toNat m.quantity.toNat =
      outputRegisters o m.quantity

variable {config : ι → ModbusTcpConfig} {f f' : Floor ι} {board : Board ι} {k : ι}

theorem effect_coils (h : request ≠ .writeDigital) :
    (request.effect d storage).coils = storage.coils := by
  cases request with
  | writeDigital => exact absurd rfl h
  | writeAnalog =>
    unfold StationRequest.effect
    cases d.config.analogOutputMapping <;> rfl
  | readDigital => rfl
  | readAnalog => rfl

theorem effect_registers (h : request ≠ .writeAnalog) :
    (request.effect d storage).holdingRegisters = storage.holdingRegisters := by
  cases request with
  | writeAnalog => exact absurd rfl h
  | writeDigital =>
    unfold StationRequest.effect
    cases d.config.digitalOutputMapping <;> rfl
  | readDigital => rfl
  | readAnalog => rfl

theorem take_digital (board : Board ι) (k : ι) (h : request ≠ .writeDigital) :
    (board.take (.ask k request)).digital = board.digital := by
  cases request with
  | writeDigital => exact absurd rfl h
  | writeAnalog | readDigital | readAnalog => rfl

theorem take_analog (board : Board ι) (k : ι) (h : request ≠ .writeAnalog) :
    (board.take (.ask k request)).analog = board.analog := by
  cases request with
  | writeAnalog => exact absurd rfl h
  | writeDigital | readDigital | readAnalog => rfl

theorem take_outputs (board : Board ι) (k : ι) (request : StationRequest) :
    (board.take (.ask k request)).outputs = board.outputs := by
  cases request <;> rfl

/-- One driver takes the place of another. -/
theorem forall_update {drivers : ι → ModbusTcpDriver} (P : ι → ModbusTcpDriver → Prop)
    (hk : P k d') (hrest : ∀ k', P k' (drivers k')) (k' : ι) :
    P k' (Function.update drivers k d' k') :=
  (Function.forall_update_iff drivers P).mpr ⟨hk, fun k' _ => hrest k'⟩ k'

namespace Floor.Shows

/-- After a request the coils are still those of the board. -/
theorem coils_effect (h : f.Shows config board) (hw : Wired (config k)) (hapart : Apart config)
    (request : StationRequest) (k' : ι) (m : ModbusMapping) (o : FieldbusOutputs)
    (hmapping : (config k').digitalOutputMapping = some m)
    (ho : (board.take (.ask k request)).digital k' = some o) :
    range (request.effect (f.drivers k) f.storage).coils m.address.toNat m.quantity.toNat =
      outputBits o m.quantity := by
  by_cases hwrite : request = .writeDigital
  · subst hwrite
    have hown : (f.drivers k).config.digitalOutputMapping = (config k).digitalOutputMapping := by
      rw [h.configured]
    simp only [Board.take] at ho
    by_cases hk : k' = k
    · -- the station's own area holds its outputs
      subst hk
      rw [Function.update_self] at ho
      cases ho
      obtain ⟨-, -, hin⟩ := hw.digitalOutput m hmapping
      simp only [StationRequest.effect, hown, hmapping, h.outputs]
      exact drop_take_fill f.storage.coils _ hin
    · -- the other areas lie apart
      rw [Function.update_of_ne hk] at ho
      have hkept := h.coils k' m o hmapping ho
      cases hmapped : (config k).digitalOutputMapping with
      | none =>
        simp only [StationRequest.effect, hown, hmapped]
        exact hkept
      | some m' =>
        simp only [StationRequest.effect, hown, hmapped]
        rw [range_fill_apart f.storage.coils _ (hapart.coils (Ne.symm hk) m' m hmapped hmapping)]
        exact hkept
  · rw [take_digital board k hwrite] at ho
    rw [effect_coils hwrite]
    exact h.coils k' m o hmapping ho

/-- And the registers. -/
theorem registers_effect (h : f.Shows config board) (hw : Wired (config k)) (hapart : Apart config)
    (request : StationRequest) (k' : ι) (m : ModbusMapping) (o : FieldbusOutputs)
    (hmapping : (config k').analogOutputMapping = some m)
    (ho : (board.take (.ask k request)).analog k' = some o) :
    range (request.effect (f.drivers k) f.storage).holdingRegisters m.address.toNat
        m.quantity.toNat = outputRegisters o m.quantity := by
  by_cases hwrite : request = .writeAnalog
  · subst hwrite
    have hown : (f.drivers k).config.analogOutputMapping = (config k).analogOutputMapping := by
      rw [h.configured]
    simp only [Board.take] at ho
    by_cases hk : k' = k
    · subst hk
      rw [Function.update_self] at ho
      cases ho
      obtain ⟨-, hle, hin⟩ := hw.analogOutput m hmapping
      simp only [StationRequest.effect, hown, hmapping, h.outputs]
      refine (drop_take_fill f.storage.holdingRegisters _ hin).trans ?_
      -- the first channels, one register each
      have hlength := length_outputRegisters (board.outputs k') hle
      apply List.ext_getElem
      · rw [List.length_map, List.length_range, hlength]
      · intro i hi _
        rw [List.length_map, List.length_range] at hi
        simp only [outputRegisters, List.getElem_map, List.getElem_range, List.getElem_take,
          Vector.getElem_toList]
        rw [Vector.getElem?_eq_getElem (by omega), Option.getD_some]
    · rw [Function.update_of_ne hk] at ho
      have hkept := h.registers k' m o hmapping ho
      cases hmapped : (config k).analogOutputMapping with
      | none =>
        simp only [StationRequest.effect, hown, hmapped]
        exact hkept
      | some m' =>
        simp only [StationRequest.effect, hown, hmapped]
        rw [range_fill_apart f.storage.holdingRegisters _
          (hapart.registers (Ne.symm hk) m' m hmapped hmapping)]
        exact hkept
  · rw [take_analog board k hwrite] at ho
    rw [effect_registers hwrite]
    exact h.registers k' m o hmapping ho

variable (hwired : ∀ k, Wired (config k)) (hapart : Apart config)

include hwired hapart

/-- Every turn keeps the server in step with the board. -/
theorem step (h : f.Shows config board) {turn : Turn ι} (hstep : Step b f turn f') :
    f'.Shows config (board.take turn) := by
  cases hstep with
  | set k outputs =>
    refine ⟨?_, ?_, ?_, h.coils, h.registers⟩
    · exact forall_update (fun _ => Online) ⟨(h.online k).state, (h.online k).connection⟩ h.online
    · exact forall_update (fun k' d' => d'.config = config k') (h.configured k) h.configured
    · intro k'
      by_cases hk : k' = k
      · subst hk
        simp only [Board.take, Function.update_self, setOutputs]
      · simp only [Board.take, Function.update_of_ne hk]
        exact h.outputs k'
  | @ask k request d' storage' htakes =>
    -- the request has had its effect, and nothing else
    have hacts := ask_spec b f.storage (h.online k) (h.configured k ▸ hwired k) request
    obtain ⟨rfl, -, hconfig, houtputs, honline⟩ := hacts.done _ _ htakes
    refine ⟨?_, ?_, ?_, h.coils_effect (hwired k) hapart request,
      h.registers_effect (hwired k) hapart request⟩
    · exact forall_update (fun _ => Online) honline h.online
    · exact forall_update (fun k' d' => d'.config = config k') (hconfig.trans (h.configured k))
        h.configured
    · rw [take_outputs]
      exact forall_update (fun k' d' => d'.outputs = board.outputs k')
        (houtputs.trans (h.outputs k)) h.outputs

/-- And every run. -/
theorem run {turns : List (Turn ι)} (hrun : Run b f turns f') :
    ∀ {board : Board ι}, f.Shows config board → f'.Shows config (turns.foldl Board.take board) := by
  induction hrun with
  | nil f =>
    intro board h
    exact h
  | cons first rest ih =>
    intro board h
    exact ih (h.step hwired hapart first)

omit hapart in
/-- A station can take any turn. -/
theorem progress (h : f.Shows config board) (b : Build) (turn : Turn ι) :
    ∃ f', Step b f turn f' := by
  cases turn with
  | set k outputs => exact ⟨_, .set k outputs⟩
  | ask k request =>
    have hacts := ask_spec b f.storage (h.online k) (h.configured k ▸ hwired k) request
    obtain ⟨d', storage', htakes⟩ := hacts.answered
    exact ⟨_, .ask htakes⟩

end Floor.Shows

/-! ## Reading -/

/-- A part of an area. -/
theorem range_within {α : Type} (v : Vector α 256) {part mapping : ModbusMapping}
    (h : part.Within mapping) :
    range v part.address.toNat part.quantity.toNat =
      ((range v mapping.address.toNat mapping.quantity.toNat).drop (part.offset mapping)).take
        part.quantity.toNat := by
  obtain ⟨hstart, hstop⟩ := h
  simp only [ModbusMapping.span, Span.stop] at hstop
  rw [range, range, List.drop_take, List.drop_drop, List.take_take, ModbusMapping.offset,
    Nat.add_sub_cancel' hstart, Nat.min_eq_left (by omega)]

/-- A reader's request takes what the storage holds. -/
theorem Floor.Shows.reads (h : f.Shows config board) (hwired : ∀ k, Wired (config k))
    (hstep : Floor.Step b f (.ask k request) f') :
    (f'.drivers k).inputs = request.taken (f.drivers k) f.storage := by
  cases hstep with
  | @ask k request d' storage' htakes =>
    have hacts := ask_spec b f.storage (h.online k) (h.configured k ▸ hwired k) request
    simp only [Function.update_self]
    exact (hacts.done _ _ htakes).inputs

section Readers

variable {j : ι} {m r : ModbusMapping} {o : FieldbusOutputs}

/-- A reader of coils that a station has written. -/
theorem Floor.Shows.readDigital (h : f.Shows config board) (hwired : ∀ k, Wired (config k))
    (hm : (config j).digitalOutputMapping = some m) (hr : (config k).digitalInputMapping = some r)
    (hwithin : r.Within m) (ho : board.digital j = some o)
    (hstep : Floor.Step b f (.ask k .readDigital) f') (i : Nat) :
    (f'.drivers k).getInputs.digital.getLsbD i =
      (decide (i < r.quantity.toNat) && o.digital.getLsbD (r.offset m + i)) := by
  have hbound : r.offset m + r.quantity.toNat ≤ m.quantity.toNat := by
    have hstop := hwithin.stop
    have hstart := hwithin.start
    simp only [ModbusMapping.span, Span.stop] at hstop
    rw [ModbusMapping.offset]
    omega
  have hword := ((hwired j).digitalOutput m hm).le
  have hown : (f.drivers k).config.digitalInputMapping = some r := by rw [h.configured, hr]
  have hread := h.reads hwired hstep
  simp only [StationRequest.taken, hown] at hread
  rw [range_within _ hwithin, h.coils j m o hm ho] at hread
  rw [getInputs, hread, getLsbD_packBits, List.getElem?_take]
  by_cases hi : i < r.quantity.toNat
  · -- a bit of the part is a bit of the word
    have hbit : ((outputBits o m.quantity).drop (r.offset m))[i]? =
        some (o.digital.getLsbD (r.offset m + i)) := by
      rw [List.getElem?_drop, outputBits, List.getElem?_map, List.getElem?_range (by omega)]
      rfl
    rw [if_pos (by omega), List.getElem?_take_of_lt hi, hbit]
    simp [hi]
  · rw [List.getElem?_eq_none (by rw [List.length_take]; omega)]
    simp [hi]

/-- And of registers. Further channels keep their values. -/
theorem Floor.Shows.readAnalog (h : f.Shows config board) (hwired : ∀ k, Wired (config k))
    (hm : (config j).analogOutputMapping = some m) (hr : (config k).analogInputMapping = some r)
    (hwithin : r.Within m) (ho : board.analog j = some o)
    (hstep : Floor.Step b f (.ask k .readAnalog) f') (i : Nat) :
    (f'.drivers k).getInputs.analog[i]? =
      if i < r.quantity.toNat then o.analog[r.offset m + i]?
      else (f.drivers k).getInputs.analog[i]? := by
  have hbound : r.offset m + r.quantity.toNat ≤ m.quantity.toNat := by
    have hstop := hwithin.stop
    have hstart := hwithin.start
    simp only [ModbusMapping.span, Span.stop] at hstop
    rw [ModbusMapping.offset]
    omega
  have hchannels := ((hwired j).analogOutput m hm).le
  have hown : (f.drivers k).config.analogInputMapping = some r := by rw [h.configured, hr]
  have hread := h.reads hwired hstep
  simp only [StationRequest.taken, hown] at hread
  rw [range_within _ hwithin, h.registers j m o hm ho] at hread
  rw [getInputs, getInputs, hread]
  by_cases hlow : i < 16
  · rw [Vector.getElem?_eq_getElem hlow, getElem_storeRegisters _ _ hlow]
    by_cases hi : i < r.quantity.toNat
    · have hchannel : ((outputRegisters o m.quantity).drop (r.offset m))[i]? =
          o.analog[r.offset m + i]? := by
        rw [List.getElem?_drop, outputRegisters, List.getElem?_take_of_lt (by omega),
          Vector.getElem?_toList]
      rw [if_pos hi, List.getElem?_take_of_lt hi, hchannel,
        Vector.getElem?_eq_getElem (by omega), Option.getD_some]
    · rw [if_neg hi, List.getElem?_eq_none (by rw [List.length_take]; omega), Option.getD_none,
        Vector.getElem?_eq_getElem hlow]
  · rw [Vector.getElem?_eq_none (by omega), if_neg (by omega), Vector.getElem?_eq_none (by omega)]

end Readers

/-- The last write is what is read. Stations that are connected and whose outputs are mapped to
areas of their own can always take their turns, in any order; and a station that reads from the area
of another one gets the outputs that this one has written last. -/
theorem last_write_read (b : Build) {f₀ f : Floor ι} {turns : List (Turn ι)}
    (honline : ∀ k, Online (f₀.drivers k)) (hwired : ∀ k, Wired (f₀.drivers k).config)
    (hapart : Apart fun k => (f₀.drivers k).config) (hrun : Floor.Run b f₀ turns f) :
    (∀ turn, ∃ f', Floor.Step b f turn f') ∧
      ∀ (j k : ι) (m r : ModbusMapping) (o : FieldbusOutputs) (f' : Floor ι) (i : Nat), r.Within m →
        ((f₀.drivers j).config.digitalOutputMapping = some m →
          (f₀.drivers k).config.digitalInputMapping = some r →
          (turns.foldl Board.take f₀.board).digital j = some o →
          Floor.Step b f (.ask k .readDigital) f' →
          (f'.drivers k).getInputs.digital.getLsbD i =
            (decide (i < r.quantity.toNat) && o.digital.getLsbD (r.offset m + i))) ∧
        ((f₀.drivers j).config.analogOutputMapping = some m →
          (f₀.drivers k).config.analogInputMapping = some r →
          (turns.foldl Board.take f₀.board).analog j = some o →
          Floor.Step b f (.ask k .readAnalog) f' →
          (f'.drivers k).getInputs.analog[i]? =
            if i < r.quantity.toNat then o.analog[r.offset m + i]?
            else (f.drivers k).getInputs.analog[i]?) := by
  -- at the start nothing has been written
  have hstart : f₀.Shows (fun k => (f₀.drivers k).config) f₀.board :=
    ⟨honline, fun _ => rfl, fun _ => rfl, fun _ _ _ _ ho => (Option.some_ne_none _ ho.symm).elim,
      fun _ _ _ _ ho => (Option.some_ne_none _ ho.symm).elim⟩
  have hshows := hstart.run hwired hapart hrun
  refine ⟨hshows.progress hwired b, ?_⟩
  intro j k m r o f' i hwithin
  constructor
  · intro hm hr ho hstep
    exact hshows.readDigital hwired hm hr hwithin ho hstep i
  · intro hm hr ho hstep
    exact hshows.readAnalog hwired hm hr hwithin ho hstep i

end Stations

/-- No mapping at all. -/
def bareConfig : ModbusTcpConfig :=
  { ModbusTcpConfig.default with
    digitalOutputMapping := none
    analogOutputMapping := none
    digitalInputMapping := none
    analogInputMapping := none }

/-- A station that writes, and one that reads three of its coils. -/
def pairFloor : Floor Bool where
  storage := .default
  drivers
    | false => { echoDriver with config := { bareConfig with
        digitalOutputMapping := some ⟨3, 13, .writeMultipleCoils⟩ } }
    | true => { echoDriver with config := { bareConfig with
        digitalInputMapping := some ⟨5, 3, .readCoils⟩ } }

/-- The reader gets the outputs that were written, not those that were set afterwards. -/
theorem last_write_read_pair : ∃ f f', Floor.Run .debug pairFloor
      [.ask false .writeDigital, .set false ⟨0, Vector.replicate 16 0⟩] f ∧
    Floor.Step .debug f (.ask true .readDigital) f' ∧
    (f'.drivers true).getInputs.digital.getLsbD 1 = true := by
  have honline : ∀ k, Online (pairFloor.drivers k) := by
    intro k
    cases k <;> exact ⟨rfl, rfl⟩
  have hwired : ∀ k, Wired (pairFloor.drivers k).config := by
    intro k
    cases k with
    | false =>
      refine ⟨?_, ?_, ?_, ?_⟩ <;> rintro mapping ⟨⟩
      exact ⟨by decide, by decide, by decide⟩
    | true =>
      refine ⟨?_, ?_, ?_, ?_⟩ <;> rintro mapping ⟨⟩
      exact ⟨rfl, by decide, by decide, by decide⟩
  have hapart : Apart fun k => (pairFloor.drivers k).config := by
    constructor
    all_goals
      intro j k hne m m' hm hm'
      cases j <;> cases k
      · exact absurd rfl hne
      · cases hm'
      · cases hm
      · exact absurd rfl hne
  obtain ⟨f₁, hwrite⟩ := (last_write_read .debug honline hwired hapart (.nil _)).1
    (.ask false .writeDigital)
  obtain ⟨f, hset⟩ := (last_write_read .debug honline hwired hapart (.cons hwrite (.nil _))).1
    (.set false ⟨0, Vector.replicate 16 0⟩)
  have hrun := Floor.Run.cons hwrite (.cons hset (.nil _))
  obtain ⟨hprogress, hreads⟩ := last_write_read .debug honline hwired hapart hrun
  obtain ⟨f', hread⟩ := hprogress (.ask true .readDigital)
  refine ⟨f, f', hrun, hread, ?_⟩
  exact (hreads false true ⟨3, 13, .writeMultipleCoils⟩ ⟨5, 3, .readCoils⟩ _ f' 1
    ⟨by decide, by decide⟩).1 rfl rfl rfl hread

end VirtualPlc.Fieldbus

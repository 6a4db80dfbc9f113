import VirtualPlc.Fieldbus.MockServer
import VirtualPlc.Fieldbus.Reconnect

/-!
# Reading back what was written

A request writes one frame, which does not depend on the answer. With the mock server answering,
writing the outputs and then reading the same coils and holding registers gives the outputs back, as
far as the mappings reach (`outputs_readBack`).
-/

set_option autoImplicit false

namespace VirtualPlc.Fieldbus

open VirtualPlc.Runtime VirtualPlc.Word ModbusTcpDriver

/-! ## One request -/

theorem readExact_append (bytes more : List Byte) {n : Nat} (h : bytes.length = n) :
    ∃ answer : Vector Byte n, readExact (bytes ++ more) n = .ok answer ∧ answer.toList = bytes := by
  subst h
  refine ⟨_, dif_pos (by rw [List.length_append]; omega), ?_⟩
  exact List.take_left

/-- A response whose function code is no exception is passed on. -/
theorem checkException_code (function : FunctionCode) (rest : List Byte) :
    checkException (function.code :: rest) = .ok (function.code :: rest) := by
  cases function <;> rfl

/-- The PDU of a request that sends one. -/
def Request.bytes (request : Request) : List Byte := request.pdu.getD []

namespace ModbusTcpDriver

variable {b : Build} {d d' : ModbusTcpDriver} {storage storage' : ModbusStorage}

/-- The frame of a PDU under the identifiers of the next request. -/
def frame (d : ModbusTcpDriver) (pdu : List Byte) : List Byte :=
  (⟨d.nextId, 0, BitVec.ofNat 16 (pdu.length + 1), d.config.unitId⟩ : MbapHeader).toBytes ++ pdu

/-- The frame depends on the identifiers only. -/
theorem frame_congr {pdu : List Byte} (hconfig : d'.config = d.config)
    (hid : d'.transactionId = d.transactionId) : d'.frame pdu = d.frame pdu := by
  rw [frame, frame, nextId, nextId, hconfig, hid]

/-- What a request leaves that is answered: it has written one frame, and the connection is up. -/
structure Asked (d : ModbusTcpDriver) (frame : List Byte) (d' : ModbusTcpDriver) : Prop where
  config : d'.config = d.config
  outputs : d'.outputs = d.outputs
  state : d'.state = d.state
  connection : d'.connection.isSome = true
  transactionId : d'.transactionId = d.nextId
  requests : d'.requests = d.requests ++ [frame]

/-- The server executes the PDU of a frame, and answers under its identifiers. -/
theorem handleConnection_frame {pdu response : List Byte} (hpos : pdu ≠ [])
    (hlen : pdu.length ≤ 253) (h : storage.processRequest pdu = (some response, storage')) :
    storage.handleConnection (d.frame pdu) = (d.frame response, storage') := by
  have hlength : (BitVec.ofNat 16 (pdu.length + 1)).toNat - 1 = pdu.length := by
    rw [BitVec.toNat_ofNat, Nat.mod_eq_of_lt (by omega), Nat.add_sub_cancel]
  have hzero : pdu.length ≠ 0 := fun hnil => hpos (List.length_eq_zero_iff.mp hnil)
  have hpdu : ((d.frame pdu).drop MbapHeader.size).take pdu.length = pdu := by
    exact List.take_length
  unfold ModbusStorage.handleConnection
  rw [frame, MbapHeader.fromBytes_toBytes]
  dsimp only
  rw [← frame, hlength, hpdu, if_neg (by simp [hzero]; omega), if_neg (Nat.lt_irrefl _), h]
  rfl

/-- A response under the identifiers of the request is read in full. -/
theorem receiveResponse_answered {tid : BitVec 16} {response : List Byte}
    (hconn : d.connection.isSome = true) (hlen : response.length ≤ 253)
    (hok : checkException response = .ok response) :
    ∃ bytes pdu, d.receiveResponse b tid (.answering ((⟨tid, 0,
        BitVec.ofNat 16 (response.length + 1), d.config.unitId⟩ : MbapHeader).toBytes ++
          response)) =
      .ok (.ok response, (d.received 0 bytes).received MbapHeader.size pdu) := by
  obtain ⟨conn, hsome⟩ := Option.isSome_iff_exists.mp hconn
  generalize hheader : (⟨tid, 0, BitVec.ofNat 16 (response.length + 1), d.config.unitId⟩ :
    MbapHeader) = header
  obtain ⟨bytes, hread, hbytes⟩ := readExact_append header.toBytes response (n := 7) rfl
  obtain ⟨pdu, hreadPdu, hpdu⟩ := readExact_append response [] (n := response.length) rfl
  rw [List.append_nil] at hreadPdu
  have hparsed : MbapHeader.fromBytes bytes.toList = .ok header := by
    have hwhole := MbapHeader.fromBytes_toBytes header []
    rwa [List.append_nil, ← hbytes] at hwhole
  have hanswers : header.Answers tid d.config.unitId := by
    rw [← hheader]
    exact ⟨rfl, rfl, rfl⟩
  -- the announced length counts the unit identifier besides the PDU
  have hlength : u16Sub b header.length 1 = .ok (BitVec.ofNat 16 response.length) := by
    rw [← hheader]
    have hpos : (1 : BitVec 16).toNat ≤ (BitVec.ofNat 16 (response.length + 1)).toNat := by
      rw [show (1 : BitVec 16).toNat = 1 from rfl, BitVec.toNat_ofNat]
      omega
    rw [u16Sub, Build.result_of_inRange hpos, BitVec.ofNat_add]
    exact congrArg Except.ok (BitVec.add_sub_cancel _ _)
  have hnat : (BitVec.ofNat 16 response.length).toNat = response.length := by
    rw [BitVec.toNat_ofNat, Nat.mod_eq_of_lt (by omega)]
  have hafter : (d.received 0 bytes.toList).connection = some ⟨conn.received ++ bytes.toList⟩ := by
    simp [received, hsome]
  have hstream : (Exchange.answering (header.toBytes ++ response)).pdu response.length = .ok pdu :=
    hreadPdu
  have hstreamHeader : (Exchange.answering (header.toBytes ++ response)).header = .ok bytes := hread
  refine ⟨bytes.toList, pdu.toList, ?_⟩
  rw [receiveResponse_eq hsome hstreamHeader hparsed, MbapHeader.validate_of_answers hanswers]
  dsimp only
  rw [hlength]
  dsimp only
  rw [hnat, if_neg (by omega), receivePdu_eq _ hafter hlen, hstream]
  dsimp only
  rw [hpdu, hok]

/-- A request that is answered by a frame under its identifiers. -/
theorem sendRequest_answered {pdu response : List Byte} (hconn : d.connection.isSome = true)
    (hlen : pdu.length ≤ 253) (hresponse : response.length ≤ 253)
    (hok : checkException response = .ok response) :
    ∃ d', d.sendRequest b pdu (.answering (d.frame response)) = .ok (.ok response, d') ∧
      Asked d (d.frame pdu) d' ∧ d'.inputs = d.inputs := by
  let d₁ : ModbusTcpDriver := d.nextTransactionId.2.sent (d.frame pdu)
  have hnew : MbapHeader.new b d.nextId (BitVec.ofNat 16 pdu.length) d.config.unitId =
      .ok ⟨d.nextId, 0, BitVec.ofNat 16 (pdu.length + 1), d.config.unitId⟩ := by
    have hfits : (BitVec.ofNat 16 pdu.length).toNat + (1 : BitVec 16).toNat < 2 ^ 16 := by
      rw [BitVec.toNat_ofNat, Nat.mod_eq_of_lt (by omega), show (1 : BitVec 16).toNat = 1 from rfl]
      omega
    rw [MbapHeader.new, u16Add, Build.result_of_inRange hfits, BitVec.ofNat_add]
    rfl
  have hsent : d.sendRequest b pdu (.answering (d.frame response)) =
      d₁.receiveResponse b d.nextId (.answering (d.frame response)) := by
    unfold sendRequest
    rw [if_neg (by rw [Option.isNone_eq_false_iff.mpr hconn]; exact Bool.false_ne_true)]
    change (MbapHeader.new b d.nextId (BitVec.ofNat 16 pdu.length) d.config.unitId >>= _) = _
    rw [hnew]
    rfl
  obtain ⟨bytes, pduBytes, hreceived⟩ : ∃ bytes pduBytes,
      d₁.receiveResponse b d.nextId (.answering (d.frame response)) =
        .ok (.ok response, (d₁.received 0 bytes).received MbapHeader.size pduBytes) :=
    receiveResponse_answered hconn hresponse hok
  refine ⟨(d₁.received 0 bytes).received MbapHeader.size pduBytes, hsent.trans hreceived, ?_⟩
  refine ⟨⟨rfl, rfl, rfl, ?_, rfl, rfl⟩, rfl⟩
  simp only [received, Option.isSome_map]
  exact hconn

/-- A call that sends `pdu`, and what is left when the server has answered its frame. -/
structure Served {α : Type} (storage : ModbusStorage) (d : ModbusTcpDriver) (pdu : List Byte)
    (call : Exchange → Except Failure (Answer α)) (value : α) (d' : ModbusTcpDriver)
    (storage' : ModbusStorage) : Prop where
  result : call (storage.exchange (d.frame pdu)) = .ok (.ok value, d')
  stored : (storage.handleConnection (d.frame pdu)).2 = storage'
  asked : Asked d (d.frame pdu) d'

/-- A served request whose answer is stored with the inputs. -/
theorem Served.store {α : Type} {storage' : ModbusStorage} {pdu : List Byte}
    {call : Exchange → Except Failure (Answer α)} {value : α} {d₁ : ModbusTcpDriver}
    (h : Served storage d pdu call value d₁ storage')
    (store : α → FieldbusInputs → FieldbusInputs) :
    Served storage d pdu
      (fun x => onSuccess (call x) fun a d =>
        .ok (.ok (), { d with inputs := store a d.inputs })) ()
      { d₁ with inputs := store value d₁.inputs } storage' where
  result := by
    show onSuccess (call _) _ = _
    rw [h.result]
    rfl
  stored := h.stored
  asked := ⟨h.asked.config, h.asked.outputs, h.asked.state, h.asked.connection,
    h.asked.transactionId, h.asked.requests⟩

theorem request_served {α : Type} {pdu response : List Byte} {value : α}
    {decode : List Byte → Except Failure (PlcResult α)} (hconn : d.connection.isSome = true)
    (hpos : pdu ≠ []) (hlen : pdu.length ≤ 253)
    (hserver : storage.processRequest pdu = (some response, storage'))
    (hresponse : response.length ≤ 253) (hok : checkException response = .ok response)
    (hdecode : decode response = .ok (.ok value)) :
    ∃ d', Served storage d pdu (d.request b pdu decode) value d' storage' ∧
      d'.inputs = d.inputs := by
  have hframe := handleConnection_frame (d := d) hpos hlen hserver
  obtain ⟨d', hsend, hasked, hinputs⟩ := sendRequest_answered (b := b) hconn hlen hresponse hok
  refine ⟨d', ⟨?_, by rw [hframe], hasked⟩, hinputs⟩
  rw [ModbusStorage.exchange, hframe, request, hsend]
  change (decode response >>= _) = _
  rw [hdecode]
  rfl

/-- What a request leaves, whatever it is answered: its frame is written unless it fails. -/
structure Sent {α : Type} (d : ModbusTcpDriver) (frame : List Byte) (r : PlcResult α)
    (d' : ModbusTcpDriver) : Prop where
  config : d'.config = d.config
  outputs : d'.outputs = d.outputs
  transactionId : d.connection.isSome = true → d'.transactionId = d.nextId
  requests : d'.requests = d.requests ++ [frame] ∨ d'.requests = d.requests ∧ ∃ e, r = .error e

/-- Every way in which a call can return has sent the frame of `pdu`, or failed. -/
def Sends {α : Type} (d : ModbusTcpDriver) (pdu : List Byte)
    (call : Exchange → Except Failure (Answer α)) : Prop :=
  ∀ x r d', call x = .ok (r, d') → Sent d (d.frame pdu) r d'

theorem new_eq_ok {tid : BitVec 16} {unitId : Byte} {n : Nat} {header : MbapHeader}
    (h : MbapHeader.new b tid (BitVec.ofNat 16 n) unitId = .ok header) :
    header = ⟨tid, 0, BitVec.ofNat 16 (n + 1), unitId⟩ := by
  obtain ⟨length, hlength, h⟩ := bind_eq_ok.mp h
  cases h
  have hsum : length = BitVec.ofNat 16 n + 1 := by
    rcases Build.result_eq_ok hlength with ⟨-, heq⟩ | heq
    · exact heq
    · exact heq
  rw [hsum, BitVec.ofNat_add]
  rfl

theorem sendRequest_sends (b : Build) (d : ModbusTcpDriver) (pdu : List Byte) :
    Sends d pdu (d.sendRequest b pdu) := by
  intro x r d' h
  unfold sendRequest at h
  split at h
  · next hnone =>
    cases h
    refine ⟨rfl, rfl, fun hsome => ?_, .inr ⟨rfl, _, rfl⟩⟩
    rw [Option.isNone_iff_eq_none.mp hnone] at hsome
    cases hsome
  · obtain ⟨header, hnew, h⟩ := bind_eq_ok.mp h
    cases new_eq_ok hnew
    split at h
    · cases h
      exact ⟨rfl, rfl, fun _ => rfl, .inr ⟨rfl, _, rfl⟩⟩
    · -- nothing after the write touches what has been sent
      have hafter : d'.config = d.config ∧ d'.outputs = d.outputs ∧ d'.transactionId = d.nextId ∧
          d'.requests = d.requests ++ [d.frame pdu] := by
        refine receiveResponse_keeps (P := fun d' => d'.config = d.config ∧ d'.outputs = d.outputs ∧
          d'.transactionId = d.nextId ∧ d'.requests = d.requests ++ [d.frame pdu])
          (fun _ _ _ hd => hd) (fun _ hd => hd) ?_ h
        exact ⟨rfl, rfl, rfl, rfl⟩
      exact ⟨hafter.1, hafter.2.1, fun _ => hafter.2.2.1, .inl hafter.2.2.2⟩

theorem request_sends {α : Type} (b : Build) (d : ModbusTcpDriver) (pdu : List Byte)
    (decode : List Byte → Except Failure (PlcResult α)) : Sends d pdu (d.request b pdu decode) := by
  intro x r d' h
  unfold request at h
  rcases onSuccess_eq_ok h with ⟨e, hsend, rfl⟩ | ⟨response, d₁, hsend, hrest⟩
  · have hsent := sendRequest_sends b d pdu x _ _ hsend
    refine ⟨hsent.config, hsent.outputs, hsent.transactionId, ?_⟩
    rcases hsent.requests with hsome | ⟨hnone, -⟩
    · exact .inl hsome
    · exact .inr ⟨hnone, e, rfl⟩
  · have hsent := sendRequest_sends b d pdu x _ _ hsend
    obtain ⟨result, -, hrest⟩ := bind_eq_ok.mp hrest
    cases hrest
    refine ⟨hsent.config, hsent.outputs, hsent.transactionId, ?_⟩
    rcases hsent.requests with hsome | ⟨-, e, he⟩
    · exact .inl hsome
    · cases he

/-! ## Reads and writes -/

open ModbusStorage

variable {address quantity : BitVec 16}

theorem readCoils_served (storage : ModbusStorage)
    (hconn : d.connection.isSome = true) (hpos : quantity.toNat ≠ 0)
    (hfits : address.toNat + quantity.toNat ≤ 256) :
    ∃ d', Served storage d (wordsPdu .readCoils address quantity)
      (d.readBits b .readCoils address quantity)
      (range storage.coils address.toNat quantity.toNat) d' storage ∧ d'.inputs = d.inputs := by
  have hlen := length_range storage.coils hfits
  have hserver : storage.processRequest (wordsPdu .readCoils address quantity) =
      (some (storage.handleReadBits (wordsPdu .readCoils address quantity) true), storage) := rfl
  rw [handleReadBits_eq .readCoils true hpos hfits, if_pos rfl] at hserver
  have hdecode := decodeBits_decodes b .readCoils quantity
    ([FunctionCode.readCoils.code, BitVec.ofNat 8 ((quantity.toNat + 7) / 8)] ++
      packCoils (range storage.coils address.toNat quantity.toNat))
  rw [bitsOf_packCoils .readCoils hlen (by omega)] at hdecode
  refine request_served hconn (List.cons_ne_nil _ _) (length_wordsPdu_le _ _ _) hserver ?_
    (checkException_code _ _) hdecode
  rw [List.length_append, length_packCoils, hlen, List.length_cons, List.length_singleton]
  omega

theorem readHoldingRegisters_served (storage : ModbusStorage)
    (hconn : d.connection.isSome = true) (hpos : quantity.toNat ≠ 0) (hle : quantity.toNat ≤ 125)
    (hfits : address.toNat + quantity.toNat ≤ 256) :
    ∃ d', Served storage d (wordsPdu .readHoldingRegisters address quantity)
      (d.readRegisters b .readHoldingRegisters address quantity)
      (range storage.holdingRegisters address.toNat quantity.toNat) d' storage ∧
        d'.inputs = d.inputs := by
  have hlen := length_range storage.holdingRegisters hfits
  have hserver : storage.processRequest (wordsPdu .readHoldingRegisters address quantity) =
      (some (storage.handleReadRegisters (wordsPdu .readHoldingRegisters address quantity) true),
        storage) := rfl
  rw [handleReadRegisters_eq .readHoldingRegisters true hpos hle hfits, if_pos rfl] at hserver
  have hdecode := decodeRegisters_decodes .readHoldingRegisters quantity
    ([FunctionCode.readHoldingRegisters.code, BitVec.ofNat 8 (quantity.toNat * 2)] ++
      (range storage.holdingRegisters address.toNat quantity.toNat).flatMap toBeBytes)
  rw [registersOf_flatMap .readHoldingRegisters hlen hle] at hdecode
  refine request_served hconn (List.cons_ne_nil _ _) (length_wordsPdu_le _ _ _) hserver ?_
    (checkException_code _ _) hdecode
  rw [List.length_append, length_flatMap_toBeBytes, hlen, List.length_cons, List.length_singleton]
  omega

/-- A single write, whose response is its request. -/
theorem singleWrite_served {function : FunctionCode} {what : String} {value : BitVec 16}
    (hconn : d.connection.isSome = true)
    (hserver : storage.processRequest (wordsPdu function address value) =
      (some (wordsPdu function address value), storage')) :
    ∃ d', Served storage d (wordsPdu function address value)
      (d.request b (wordsPdu function address value)
        (decodeEcho function (compareSingle what address value))) () d' storage' := by
  have hdecode := decodeEcho_eq function (compareSingle what address value) address value
  rw [compareSingle_self, ← wordsPdu_eq] at hdecode
  obtain ⟨d', hserved, -⟩ := request_served (b := b) hconn (List.cons_ne_nil _ _)
    (length_wordsPdu_le _ _ _) hserver (length_wordsPdu_le _ _ _) (checkException_code function _)
    hdecode
  exact ⟨d', hserved⟩

/-- A multiple write, whose response is its address and quantity. -/
theorem multipleWrite_served {function : FunctionCode} {what : String} {data : List Byte}
    (hconn : d.connection.isSome = true) (hlen : data.length ≤ 247)
    (hserver : storage.processRequest (multiplePdu function address quantity data) =
      (some ([function.code] ++ toBeBytes address ++ toBeBytes quantity), storage')) :
    ∃ d', Served storage d (multiplePdu function address quantity data)
      (d.request b (multiplePdu function address quantity data)
        (decodeEcho function (compareMultiple what address quantity))) () d' storage' := by
  have hdecode := decodeEcho_eq function (compareMultiple what address quantity) address quantity
  rw [compareMultiple_self] at hdecode
  have hlong : (multiplePdu function address quantity data).length ≤ 253 := by
    simp only [multiplePdu, List.length_append, List.length_singleton, length_toBeBytes]
    omega
  have hshort : ([function.code] ++ toBeBytes address ++ toBeBytes quantity).length ≤ 253 := by
    rw [length_echo]
    decide
  obtain ⟨d', hserved, -⟩ := request_served (b := b) hconn (List.cons_ne_nil _ _) hlong hserver
    hshort (checkException_code function _) hdecode
  exact ⟨d', hserved⟩

/-- Coils reach the server, a single one in a form of its own. The registers stay. -/
theorem writeCoils_served (storage : ModbusStorage) {values : List Bool}
    (hconn : d.connection.isSome = true)
    (hpos : values ≠ []) (hfits : address.toNat + values.length ≤ 256) :
    ∃ d' storage', Served storage d (Request.writeCoils address values).bytes
        (d.writeCoils b address values) () d' storage' ∧
      range storage'.coils address.toNat values.length = values ∧
      storage'.holdingRegisters = storage.holdingRegisters := by
  match values, hpos, hfits with
  | [value], _, hfits =>
    rw [List.length_singleton] at hfits
    have hserver : storage.processRequest
        (wordsPdu .writeSingleCoil address (if value then 0xFF00 else 0x0000)) =
      (some (wordsPdu .writeSingleCoil address (if value then 0xFF00 else 0x0000)),
        { storage with coils := fill storage.coils address.toNat (fun _ => value) 1 }) :=
      congrArg (Prod.map some id) (handleWriteSingleCoil_eq value hfits)
    obtain ⟨d', hserved⟩ := singleWrite_served (b := b) hconn hserver
    exact ⟨d', _, hserved, drop_take_fill storage.coils (fun _ => value) hfits, rfl⟩
  | v₁ :: v₂ :: rest, hpos, hfits =>
    have hlen : (packCoils (v₁ :: v₂ :: rest)).length ≤ 247 := by
      rw [length_packCoils]
      omega
    have hserver : storage.processRequest (multiplePdu .writeMultipleCoils address
        (BitVec.ofNat 16 (v₁ :: v₂ :: rest).length) (packCoils (v₁ :: v₂ :: rest))) =
      (some ([FunctionCode.writeMultipleCoils.code] ++ toBeBytes address ++
          toBeBytes (BitVec.ofNat 16 (v₁ :: v₂ :: rest).length)), _) :=
      congrArg (Prod.map some id) (handleWriteMultipleCoils_eq hpos hfits)
    obtain ⟨d', hserved⟩ := multipleWrite_served (b := b) hconn hlen hserver
    refine ⟨d', _, hserved, (drop_take_fill storage.coils _ hfits).trans ?_, rfl⟩
    apply List.ext_getElem
    · rw [List.length_map, List.length_range]
    · intro i _ hi
      rw [List.getElem_map, List.getElem_range, List.getElem?_eq_getElem hi, Option.getD_some]

/-- Registers reach the server, a single one in a form of its own. The coils stay. -/
theorem writeRegisters_served (storage : ModbusStorage) {values : List (BitVec 16)}
    (hconn : d.connection.isSome = true)
    (hpos : values ≠ []) (hle : values.length ≤ 123)
    (hfits : address.toNat + values.length ≤ 256) :
    ∃ d' storage', Served storage d (Request.writeRegisters address values).bytes
        (d.writeRegisters b address values) () d' storage' ∧
      range storage'.holdingRegisters address.toNat values.length = values ∧
      storage'.coils = storage.coils := by
  match values, hpos, hle, hfits with
  | [value], _, _, hfits =>
    rw [List.length_singleton] at hfits
    have hserver : storage.processRequest (wordsPdu .writeSingleRegister address value) =
      (some (wordsPdu .writeSingleRegister address value), { storage with
        holdingRegisters := fill storage.holdingRegisters address.toNat (fun _ => value) 1 }) :=
      congrArg (Prod.map some id) (handleWriteSingleRegister_eq value hfits)
    obtain ⟨d', hserved⟩ := singleWrite_served (b := b) hconn hserver
    exact ⟨d', _, hserved, drop_take_fill storage.holdingRegisters (fun _ => value) hfits, rfl⟩
  | v₁ :: v₂ :: rest, hpos, hle, hfits =>
    have hlen : ((v₁ :: v₂ :: rest).flatMap toBeBytes).length ≤ 247 := by
      rw [length_flatMap_toBeBytes]
      omega
    have hserver : storage.processRequest (multiplePdu .writeMultipleRegisters address
        (BitVec.ofNat 16 (v₁ :: v₂ :: rest).length) ((v₁ :: v₂ :: rest).flatMap toBeBytes)) =
      (some ([FunctionCode.writeMultipleRegisters.code] ++ toBeBytes address ++
          toBeBytes (BitVec.ofNat 16 (v₁ :: v₂ :: rest).length)), _) :=
      congrArg (Prod.map some id) (handleWriteMultipleRegisters_eq hpos hle hfits)
    obtain ⟨d', hserved⟩ := multipleWrite_served (b := b) hconn hlen hserver
    refine ⟨d', _, hserved, (drop_take_fill storage.holdingRegisters _ hfits).trans ?_, rfl⟩
    apply List.ext_getElem
    · rw [List.length_map, List.length_range]
    · intro i _ hi
      rw [List.getElem_map, List.getElem_range]
      exact fromBeBytes_flatMap _ hi

theorem writeCoils_sends {values : List Bool} (hpos : values ≠ []) :
    Sends d (Request.writeCoils address values).bytes (d.writeCoils b address values) := by
  match values, hpos with
  | [value], _ => exact request_sends b d _ _
  | v₁ :: v₂ :: rest, _ => exact request_sends b d _ _

theorem writeRegisters_sends {values : List (BitVec 16)} (hpos : values ≠ []) :
    Sends d (Request.writeRegisters address values).bytes (d.writeRegisters b address values) := by
  match values, hpos with
  | [value], _ => exact request_sends b d _ _
  | v₁ :: v₂ :: rest, _ => exact request_sends b d _ _

/-! ## Process data -/

/-- The coils of the digital outputs. -/
def outputBits (outputs : FieldbusOutputs) (quantity : BitVec 16) : List Bool :=
  (List.range quantity.toNat).map outputs.digital.getLsbD

/-- The registers of the analog outputs. -/
def outputRegisters (outputs : FieldbusOutputs) (quantity : BitVec 16) : List (BitVec 16) :=
  outputs.analog.toList.take quantity.toNat

/-- Within the word no shift overflows, and each one finds its bit. -/
theorem mapM_u32Shr (b : Build) (word : BitVec 32) {quantity : Nat} (h : quantity ≤ 32) :
    ((List.range quantity).mapM fun i => do
        let shifted ← u32Shr b word i
        return decide (shifted &&& 1 ≠ 0) : Except Failure (List Bool)) =
      .ok ((List.range quantity).map word.getLsbD) := by
  apply mapM_eq_ok
  intro i hi
  have hlt : i < 32 := Nat.lt_of_lt_of_le (List.mem_range.mp hi) h
  rw [u32Shr, Build.result_of_inRange hlt, ← decide_shift_and_one]
  rfl

theorem writeDigitalOutputs_eq {mapping : ModbusMapping} {x : Exchange}
    (hmapping : d.config.digitalOutputMapping = some mapping) (hle : mapping.quantity.toNat ≤ 32) :
    d.writeDigitalOutputs b x =
      d.writeCoils b mapping.address (outputBits d.outputs mapping.quantity) x := by
  unfold writeDigitalOutputs
  rw [hmapping]
  dsimp only
  rw [mapM_u32Shr b d.outputs.digital hle]
  rfl

theorem writeAnalogOutputs_eq {mapping : ModbusMapping} {x : Exchange}
    (hmapping : d.config.analogOutputMapping = some mapping) :
    d.writeAnalogOutputs b x =
      d.writeRegisters b mapping.address (outputRegisters d.outputs mapping.quantity) x := by
  unfold writeAnalogOutputs
  rw [hmapping]
  rfl

theorem readDigitalInputs_eq {mapping : ModbusMapping} {x : Exchange}
    (hmapping : d.config.digitalInputMapping = some mapping) :
    d.readDigitalInputs b x =
      onSuccess (d.readBits b mapping.function mapping.address mapping.quantity x) fun bits d =>
        .ok (.ok (), { d with inputs := { d.inputs with digital := packBits bits } }) := by
  unfold readDigitalInputs
  rw [hmapping]

theorem readAnalogInputs_eq {mapping : ModbusMapping} {x : Exchange}
    (hmapping : d.config.analogInputMapping = some mapping) :
    d.readAnalogInputs b x =
      onSuccess (d.readRegisters b mapping.function mapping.address mapping.quantity x)
        fun registers d => .ok (.ok (), { d with
          inputs := { d.inputs with analog := storeRegisters d.inputs.analog registers } }) := by
  unfold readAnalogInputs
  rw [hmapping]

/-- A request whose answer is stored with the inputs. -/
theorem store_sends {α : Type} (b : Build) (d : ModbusTcpDriver) (pdu : List Byte)
    (decode : List Byte → Except Failure (PlcResult α))
    (store : α → FieldbusInputs → FieldbusInputs) :
    Sends d pdu fun x => onSuccess (d.request b pdu decode x) fun a d =>
      .ok (.ok (), { d with inputs := store a d.inputs }) := by
  intro x r d' h
  rcases onSuccess_eq_ok h with ⟨e, hread, rfl⟩ | ⟨a, d₁, hread, hrest⟩
  · have hsent := request_sends b d pdu decode x _ _ hread
    exact ⟨hsent.config, hsent.outputs, hsent.transactionId,
      hsent.requests.imp_right fun hnone => ⟨hnone.1, e, rfl⟩⟩
  · have hsent := request_sends b d pdu decode x _ _ hread
    cases hrest
    refine ⟨hsent.config, hsent.outputs, hsent.transactionId, hsent.requests.imp_right ?_⟩
    rintro ⟨-, e, he⟩
    cases he

theorem readDigitalInputs_sends {mapping : ModbusMapping}
    (hmapping : d.config.digitalInputMapping = some mapping) :
    Sends d (wordsPdu mapping.function mapping.address mapping.quantity)
      (d.readDigitalInputs b) := by
  intro x r d' h
  rw [readDigitalInputs_eq hmapping] at h
  exact store_sends b d _ _ (fun bits inputs => { inputs with digital := packBits bits }) x r d' h

theorem readAnalogInputs_sends {mapping : ModbusMapping}
    (hmapping : d.config.analogInputMapping = some mapping) :
    Sends d (wordsPdu mapping.function mapping.address mapping.quantity)
      (d.readAnalogInputs b) := by
  intro x r d' h
  rw [readAnalogInputs_eq hmapping] at h
  exact store_sends b d _ _ (fun registers inputs =>
    { inputs with analog := storeRegisters inputs.analog registers }) x r d' h

/-! ## Two requests -/

/-- The driver is connected, or its reconnection succeeds. -/
def Up (d : ModbusTcpDriver) (attempt : Attempt) : Prop :=
  (d.state = .connected ∧ d.connection.isSome = true) ∨
    (d.state ≠ .connected ∧ d.Due attempt.now ∧ attempt.connecting.succeeds = true)

/-- A driver and the same one once it is connected. -/
structure Joined (d d' : ModbusTcpDriver) : Prop where
  frame : Frame d d'
  state : d'.state = .connected
  connection : d'.connection.isSome = true
  requests : d'.requests = d.requests

theorem Up.joined {attempt : Attempt} (h : d.Up attempt) :
    ∃ d', Joined d d' ∧ ∀ net, net.attempt = attempt → d.ensureConnected net = (.ok (), d') := by
  rcases h with ⟨hstate, hconn⟩ | ⟨hstate, hdue, hsucceeds⟩
  · refine ⟨d, ⟨⟨rfl, rfl, rfl⟩, hstate, hconn, rfl⟩, fun net _ => ?_⟩
    rw [ensureConnected, if_neg (not_not.mpr hstate)]
  · rcases tryReconnect_of_due hdue with ⟨-, heq⟩ | ⟨hfails, -⟩
    · let d' : ModbusTcpDriver := { d with
        connection := some ⟨[]⟩
        state := .connected
        reconnectAttempts := 0
        nextReconnectTime := none }
      refine ⟨d', ⟨⟨rfl, rfl, rfl⟩, rfl, rfl, rfl⟩, fun net hnet => ?_⟩
      rw [ensureConnected, if_pos hstate, hnet, heq]
    · rw [hsucceeds] at hfails
      cases hfails

/-- A call that reconnects if needed and makes two requests, with the server answering: its
exchanges are the server's answers to the frames that the driver writes. Whatever it is answered,
the driver writes no other frames. -/
def Converses (storage : ModbusStorage) (attempt : Attempt) (d : ModbusTcpDriver)
    (call : Network → Except Failure (Answer Unit)) (d' : ModbusTcpDriver)
    (storage' : ModbusStorage) : Prop :=
  ∃ first second,
    call ⟨attempt, storage.exchange first,
      (storage.handleConnection first).2.exchange second⟩ = .ok (.ok (), d') ∧
    d'.requests = d.requests ++ [first, second] ∧
    ((storage.handleConnection first).2.handleConnection second).2 = storage' ∧
    ∀ net answer, net.attempt = attempt → call net = .ok answer →
      answer.2.requests <+: d.requests ++ [first, second]

/-- Two requests one after the other. -/
theorem converses_of {first second : ModbusTcpDriver → Exchange → Except Failure (Answer Unit)}
    {attempt : Attempt} {d₀ d₁ d₂ : ModbusTcpDriver} {pdu₁ pdu₂ : List Byte}
    {storage₁ storage₂ : ModbusStorage} (hjoined : Joined d d₀)
    (hensured : ∀ net, net.attempt = attempt → d.ensureConnected net = (.ok (), d₀))
    (hfirst : Served storage d₀ pdu₁ (first d₀) () d₁ storage₁)
    (hsecond : Served storage₁ d₁ pdu₂ (second d₁) () d₂ storage₂)
    (hsends₁ : Sends d₀ pdu₁ (first d₀))
    (hsends₂ : ∀ d', d'.config = d₀.config → d'.outputs = d₀.outputs → Sends d' pdu₂ (second d')) :
    Converses storage attempt d (inTurn first second d) d₂ storage₂ := by
  refine ⟨d₀.frame pdu₁, d₁.frame pdu₂, ?_, ?_, ?_, ?_⟩
  · rw [inTurn, hensured _ rfl, hfirst.stored]
    change onSuccess (first d₀ _) _ = _
    rw [hfirst.result]
    exact hsecond.result
  · rw [hsecond.asked.requests, hfirst.asked.requests, hjoined.requests, List.append_assoc]
    rfl
  · rw [hfirst.stored, hsecond.stored]
  · rintro net ⟨r, d'⟩ hnet h
    rw [← hjoined.requests]
    rw [inTurn, hensured net hnet] at h
    change onSuccess (first d₀ net.digital) _ = _ at h
    rcases onSuccess_eq_ok h with ⟨e, hone, -⟩ | ⟨u, d₁', hone, htwo⟩
    · rcases (hsends₁ _ _ _ hone).requests with hsome | ⟨hnone, -⟩
      · rw [hsome]
        exact ⟨[d₁.frame pdu₂], by rw [List.append_assoc]; rfl⟩
      · rw [hnone]
        exact List.prefix_append _ _
    · have hsent := hsends₁ _ _ _ hone
      have hrequests : d₁'.requests = d₀.requests ++ [d₀.frame pdu₁] := by
        rcases hsent.requests with hsome | ⟨-, e, he⟩
        · exact hsome
        · cases he
      -- the second frame has the next identifier, whatever the first answer was
      have hframe : d₁'.frame pdu₂ = d₁.frame pdu₂ :=
        frame_congr (hsent.config.trans hfirst.asked.config.symm)
          ((hsent.transactionId hjoined.connection).trans hfirst.asked.transactionId.symm)
      rcases (hsends₂ d₁' hsent.config hsent.outputs _ _ _ htwo).requests with hsome | ⟨hnone, -⟩
      · rw [hsome, hrequests, hframe, List.append_assoc]
        exact List.prefix_refl _
      · rw [hnone, hrequests]
        exact ⟨[d₁.frame pdu₂], by rw [List.append_assoc]; rfl⟩

/-- A mapping of at least one and at most `channels` values, within the addresses of the server. -/
structure Fits (mapping : ModbusMapping) (channels : Nat) : Prop where
  pos : 1 ≤ mapping.quantity.toNat
  le : mapping.quantity.toNat ≤ channels
  inRange : mapping.address.toNat + mapping.quantity.toNat ≤ 256

variable {attempt : Attempt} {digital analog : ModbusMapping}

theorem length_outputBits (outputs : FieldbusOutputs) (quantity : BitVec 16) :
    (outputBits outputs quantity).length = quantity.toNat := by
  rw [outputBits, List.length_map, List.length_range]

theorem length_outputRegisters (outputs : FieldbusOutputs) {quantity : BitVec 16}
    (h : quantity.toNat ≤ 16) : (outputRegisters outputs quantity).length = quantity.toNat := by
  rw [outputRegisters, List.length_take, Vector.length_toList]
  omega

/-- After a write the server holds the outputs. -/
theorem writeOutputs_converses (b : Build) (storage : ModbusStorage) (hup : d.Up attempt)
    (hdigital : d.config.digitalOutputMapping = some digital)
    (hanalog : d.config.analogOutputMapping = some analog)
    (hfitsDigital : Fits digital 32) (hfitsAnalog : Fits analog 16) :
    ∃ d' storage', Converses storage attempt d (d.writeOutputs b) d' storage' ∧
      d'.config = d.config ∧ d'.state = .connected ∧ d'.connection.isSome = true ∧
      range storage'.coils digital.address.toNat digital.quantity.toNat =
        outputBits d.outputs digital.quantity ∧
      range storage'.holdingRegisters analog.address.toNat analog.quantity.toNat =
        outputRegisters d.outputs analog.quantity := by
  obtain ⟨d₀, hjoined, hensured⟩ := hup.joined
  have hbits := length_outputBits d.outputs digital.quantity
  have hregisters := length_outputRegisters d.outputs hfitsAnalog.le
  have hposDigital : outputBits d.outputs digital.quantity ≠ [] := by
    rw [← List.length_pos_iff, hbits]
    exact hfitsDigital.pos
  have hposAnalog : outputRegisters d.outputs analog.quantity ≠ [] := by
    rw [← List.length_pos_iff, hregisters]
    exact hfitsAnalog.pos
  have hfirstCall : d₀.writeDigitalOutputs b =
      d₀.writeCoils b digital.address (outputBits d.outputs digital.quantity) := by
    funext x
    rw [writeDigitalOutputs_eq (by rw [hjoined.frame.config, hdigital]) hfitsDigital.le,
      hjoined.frame.outputs]
  have hsecondCall : ∀ d₁ : ModbusTcpDriver, d₁.config = d₀.config → d₁.outputs = d₀.outputs →
      d₁.writeAnalogOutputs b =
        d₁.writeRegisters b analog.address (outputRegisters d.outputs analog.quantity) := by
    intro d₁ hconfig houtputs
    funext x
    rw [writeAnalogOutputs_eq (by rw [hconfig, hjoined.frame.config, hanalog]), houtputs,
      hjoined.frame.outputs]
  -- the coils first, then the registers, which leave the coils alone
  obtain ⟨d₁, storage₁, hfirst, hcoils, -⟩ := writeCoils_served (b := b) storage
    hjoined.connection hposDigital (by rw [hbits]; exact hfitsDigital.inRange)
  obtain ⟨d₂, storage₂, hsecond, hholding, hkept⟩ := writeRegisters_served (b := b)
    storage₁ hfirst.asked.connection hposAnalog
    (by rw [hregisters]; exact hfitsAnalog.le.trans (by decide))
    (by rw [hregisters]; exact hfitsAnalog.inRange)
  rw [← hfirstCall] at hfirst
  rw [← hsecondCall d₁ hfirst.asked.config hfirst.asked.outputs] at hsecond
  have hconverses := converses_of hjoined hensured hfirst hsecond
    (hfirstCall ▸ writeCoils_sends hposDigital)
    (fun d' hconfig houtputs => hsecondCall d' hconfig houtputs ▸ writeRegisters_sends hposAnalog)
  refine ⟨d₂, storage₂, hconverses, ?_, ?_, hsecond.asked.connection, ?_, ?_⟩
  · rw [hsecond.asked.config, hfirst.asked.config, hjoined.frame.config]
  · rw [hsecond.asked.state, hfirst.asked.state, hjoined.state]
  · rw [hkept, ← hcoils, hbits]
  · rw [← hregisters]
    exact hholding

/-- A read takes what the server holds, and leaves the server as it is. -/
theorem readInputs_converses (b : Build) (storage : ModbusStorage) (hup : d.Up attempt)
    (hdigital : d.config.digitalInputMapping = some digital)
    (hanalog : d.config.analogInputMapping = some analog)
    (hcoils : digital.function = .readCoils) (hholding : analog.function = .readHoldingRegisters)
    (hfitsDigital : Fits digital 32) (hfitsAnalog : Fits analog 16) :
    ∃ d', Converses storage attempt d (d.readInputs b) d' storage ∧
      d'.inputs.digital =
        packBits (range storage.coils digital.address.toNat digital.quantity.toNat) ∧
      d'.inputs.analog = storeRegisters d.inputs.analog
        (range storage.holdingRegisters analog.address.toNat analog.quantity.toNat) := by
  obtain ⟨d₀, hjoined, hensured⟩ := hup.joined
  have hdigital₀ : d₀.config.digitalInputMapping = some digital := by
    rw [hjoined.frame.config, hdigital]
  have hanalog₀ : ∀ d₁ : ModbusTcpDriver, d₁.config = d₀.config →
      d₁.config.analogInputMapping = some analog := by
    intro d₁ hconfig
    rw [hconfig, hjoined.frame.config, hanalog]
  obtain ⟨d₁, hfirst, hinputs₁⟩ := readCoils_served (b := b) storage
    hjoined.connection (Nat.ne_of_gt hfitsDigital.pos) hfitsDigital.inRange
  have hserved₁ := hfirst.store fun bits inputs => { inputs with digital := packBits bits }
  rw [← hcoils, ← funext fun x => readDigitalInputs_eq (x := x) hdigital₀] at hserved₁
  obtain ⟨d₂, hsecond, hinputs₂⟩ := readHoldingRegisters_served (b := b) storage
    hserved₁.asked.connection (Nat.ne_of_gt hfitsAnalog.pos) (hfitsAnalog.le.trans (by decide))
    hfitsAnalog.inRange
  have hserved₂ := hsecond.store fun registers inputs =>
    { inputs with analog := storeRegisters inputs.analog registers }
  rw [← hholding, ← funext fun x =>
    readAnalogInputs_eq (x := x) (hanalog₀ _ hserved₁.asked.config)] at hserved₂
  have hconverses := converses_of hjoined hensured hserved₁ hserved₂
    (readDigitalInputs_sends hdigital₀)
    (fun d' hconfig _ => readAnalogInputs_sends (hanalog₀ d' hconfig))
  refine ⟨_, hconverses, ?_, ?_⟩
  · exact congrArg FieldbusInputs.digital hinputs₂
  · -- the digital read has changed the digital word only
    have hanalogRead : d₁.inputs.analog = d.inputs.analog :=
      congrArg FieldbusInputs.analog (hinputs₁.trans hjoined.frame.inputs)
    have hanalogKept : d₂.inputs.analog = d.inputs.analog := by
      rw [hinputs₂]
      exact hanalogRead
    exact congrArg (storeRegisters · _) hanalogKept

/-- Outputs that are written are read back. A driver that is up writes its outputs to the server,
and any driver that is up and reads the same coils and registers then has these outputs as its
inputs, as far as the mappings reach. -/
theorem outputs_readBack (b : Build) (storage : ModbusStorage) (hup : d.Up attempt)
    (hdigital : d.config.digitalOutputMapping = some digital)
    (hanalog : d.config.analogOutputMapping = some analog)
    (hfitsDigital : Fits digital 32) (hfitsAnalog : Fits analog 16) :
    ∃ d' storage', Converses storage attempt d (d.writeOutputs b) d' storage' ∧
      d'.config = d.config ∧ (∀ attempt', d'.Up attempt') ∧
      ∀ (e : ModbusTcpDriver) (attempt' : Attempt), e.Up attempt' →
        e.config.digitalInputMapping = some ⟨digital.address, digital.quantity, .readCoils⟩ →
        e.config.analogInputMapping =
          some ⟨analog.address, analog.quantity, .readHoldingRegisters⟩ →
        ∃ e', Converses storage' attempt' e (e.readInputs b) e' storage' ∧
          (∀ i, e'.getInputs.digital.getLsbD i =
            (decide (i < digital.quantity.toNat) && d.outputs.digital.getLsbD i)) ∧
          ∀ (i : Nat) (hi : i < 16), e'.getInputs.analog[i] =
            if i < analog.quantity.toNat then d.outputs.analog[i] else e.getInputs.analog[i] := by
  obtain ⟨d', storage', hwritten, hconfig, hstate, hconn, hcoils, hholding⟩ :=
    writeOutputs_converses b storage hup hdigital hanalog hfitsDigital hfitsAnalog
  refine ⟨d', storage', hwritten, hconfig, fun _ => .inl ⟨hstate, hconn⟩, ?_⟩
  intro e attempt' hupReader hdigitalReader hanalogReader
  obtain ⟨e', hread, hbits, hregisters⟩ := readInputs_converses b storage' hupReader hdigitalReader
    hanalogReader rfl rfl ⟨hfitsDigital.pos, hfitsDigital.le, hfitsDigital.inRange⟩
    ⟨hfitsAnalog.pos, hfitsAnalog.le, hfitsAnalog.inRange⟩
  -- what the reader gets is what the writer has left on the server
  rw [hcoils] at hbits
  rw [hholding] at hregisters
  refine ⟨e', hread, fun i => ?_, fun i hi => ?_⟩
  · have hshort : (outputBits d.outputs digital.quantity).length ≤ 32 := by
      rw [length_outputBits]
      exact hfitsDigital.le
    rw [getInputs, hbits, getLsbD_packBits, List.take_of_length_le hshort, outputBits]
    by_cases hlt : i < digital.quantity.toNat
    · simp [hlt]
    · simp [hlt]
  · simp only [getInputs, hregisters]
    rw [getElem_storeRegisters _ _ hi, outputRegisters]
    by_cases hlt : i < analog.quantity.toNat
    · rw [if_pos hlt, List.getElem?_take_of_lt hlt, Vector.getElem?_toList]
      simp [hi]
    · rw [if_neg hlt, List.getElem?_eq_none]
      · rfl
      · rw [List.length_take]
        omega

/-- A configuration that reads back thirteen coils and one register. -/
def echoConfig : ModbusTcpConfig :=
  { ModbusTcpConfig.default with
    digitalOutputMapping := some ⟨3, 13, .writeMultipleCoils⟩
    analogOutputMapping := some ⟨7, 1, .writeMultipleRegisters⟩
    digitalInputMapping := some ⟨3, 13, .readCoils⟩
    analogInputMapping := some ⟨7, 1, .readHoldingRegisters⟩ }

/-- A connected driver with outputs. -/
def echoDriver : ModbusTcpDriver :=
  ((withConfig echoConfig).connect ⟨.ok (), .ok (), .ok (), .ok ()⟩).2.setOutputs
    ⟨0xABCD, Vector.replicate 16 0x1234⟩

/-- A reconnection that would succeed; a connected driver does not need it. -/
def echoAttempt : Attempt := ⟨0, ⟨.ok (), .ok (), .ok (), .ok ()⟩, 0⟩

/-- The driver reads back its own thirteen bits, and the register written in the single form. -/
theorem echo_readBack : ∃ d' storage' e',
    Converses .default echoAttempt echoDriver (echoDriver.writeOutputs .debug) d' storage' ∧
      Converses storage' echoAttempt d' (d'.readInputs .debug) e' storage' ∧
      e'.getInputs.digital = 0x0BCD ∧ e'.getInputs.analog[0] = 0x1234 := by
  have hup : echoDriver.Up echoAttempt := .inl ⟨rfl, rfl⟩
  obtain ⟨d', storage', hwritten, hconfig, hup', hreaders⟩ := outputs_readBack .debug .default hup
    rfl rfl ⟨by decide, by decide, by decide⟩ ⟨by decide, by decide, by decide⟩
  obtain ⟨e', hread, hdigital, hanalog⟩ := hreaders d' echoAttempt (hup' echoAttempt)
    (by rw [hconfig]; rfl) (by rw [hconfig]; rfl)
  refine ⟨d', storage', e', hwritten, hread, ?_, ?_⟩
  · apply BitVec.eq_of_getLsbD_eq
    intro i hi
    rw [hdigital i]
    revert i
    decide
  · exact (hanalog 0 (by decide)).trans rfl

end ModbusTcpDriver

end VirtualPlc.Fieldbus

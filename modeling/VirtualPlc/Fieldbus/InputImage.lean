import VirtualPlc.Fieldbus.Decoding

/-!
# The input image of a failed read

`read_inputs` stores the digital word before it asks for the analog registers. When the second
request fails, the image has the new digital inputs and the old analog ones.
-/

set_option autoImplicit false

namespace VirtualPlc.Fieldbus

open VirtualPlc.Runtime VirtualPlc.Word

/-- The PDU of a response that answers a request and is no exception. -/
def Exchange.response (x : Exchange) (transactionId : BitVec 16) (unitId : Byte) :
    Option (List Byte) :=
  match x.headerRead with
  | none => none
  | some header =>
    if header.Accepted transactionId unitId then
      match x.pdu (header.length.toNat - 1) with
      | .error _ => none
      | .ok pdu => (ModbusTcpDriver.checkException pdu.toList).toOption
    else none

namespace ModbusTcpDriver

variable {b : Build} {d d' : ModbusTcpDriver} {x : Exchange}

/-- The response to the next request. -/
def reply (d : ModbusTcpDriver) (x : Exchange) : Option (List Byte) :=
  if d.connection.isSome then x.response d.nextId d.config.unitId else none

theorem Frame.refl (d : ModbusTcpDriver) : Frame d d := ⟨rfl, rfl, rfl⟩

/-- What a request that returns has to do with the response. -/
structure Replied {α : Type} (d : ModbusTcpDriver) (value : Option α) (r : PlcResult α)
    (d' : ModbusTcpDriver) : Prop where
  frame : Frame d d'
  result : r.toOption = value
  after : value.isSome = true → d'.connection.isSome = true ∧ d'.transactionId = d.nextId

theorem sendRequest_replied {pdu : List Byte} {r : PlcResult (List Byte)}
    (h : d.sendRequest b pdu x = .ok (r, d')) : Replied d (d.reply x) r d' := by
  cases sendRequest_outcome h with
  | notConnected e hnone =>
    have hreply : d.reply x = none := by simp [reply, hnone]
    rw [hreply]
    exact ⟨.refl d, rfl, by simp⟩
  | dropped e _ hframe hnone failed =>
    have hreply : d.reply x = none := by
      unfold reply Exchange.response
      split
      · split
        · rfl
        · next header hread =>
          obtain ⟨haccepted, hpdu⟩ := failed header hread
          rw [if_pos haccepted]
          cases hx : x.pdu (header.length.toNat - 1) with
          | error e => rfl
          | ok pdu =>
            rw [hx] at hpdu
            cases hpdu
      · rfl
    rw [hreply]
    exact ⟨hframe, rfl, by simp⟩
  | rejected e _ hframe conn hbefore bytes header hparsed hread hunaccepted hafter =>
    have hreply : d.reply x = none := by
      simp [reply, Exchange.response, hread, hunaccepted]
    rw [hreply]
    exact ⟨hframe, rfl, by simp⟩
  | received _ hframe conn hbefore bytes header hparsed hread haccepted pdu hpdu hafter hid =>
    have hreply : d.reply x = (checkException pdu.toList).toOption := by
      simp [reply, Exchange.response, hread, haccepted, hbefore, hpdu]
    rw [hreply]
    exact ⟨hframe, rfl, fun _ => ⟨by rw [hafter]; rfl, hid⟩⟩

theorem request_replied {α : Type} {pdu : List Byte} {r : PlcResult α}
    {decode : List Byte → Except Failure (PlcResult α)} {spec : List Byte → Option α}
    (hdecode : ∀ response, Decodes (decode response) (spec response))
    (h : d.request b pdu decode x = .ok (r, d')) : Replied d ((d.reply x).bind spec) r d' := by
  unfold request at h
  rcases onSuccess_eq_ok h with ⟨e, hsend, rfl⟩ | ⟨response, d₁, hsend, hrest⟩
  · have hreplied := sendRequest_replied hsend
    have hnone : d.reply x = none := hreplied.result.symm
    rw [hnone] at hreplied ⊢
    exact ⟨hreplied.frame, rfl, by simp⟩
  · have hreplied := sendRequest_replied hsend
    have hsome : d.reply x = some response := hreplied.result.symm
    obtain ⟨hconnection, hid⟩ := hreplied.after (by rw [hsome]; rfl)
    have hspec := hdecode response
    rw [hsome, Option.bind_some]
    cases hvalue : spec response with
    | none =>
      rw [hvalue] at hspec
      obtain ⟨e, he⟩ := hspec
      rw [he] at hrest
      cases hrest
      exact ⟨hreplied.frame, rfl, by simp⟩
    | some value =>
      rw [hvalue] at hspec
      rw [show decode response = .ok (.ok value) from hspec] at hrest
      cases hrest
      exact ⟨hreplied.frame, rfl, fun _ => ⟨hconnection, hid⟩⟩

/-- The digital word in the response to the digital request. -/
def digitalWord (d : ModbusTcpDriver) (x : Exchange) : Option (BitVec 32) :=
  match d.config.digitalInputMapping with
  | none => none
  | some mapping => ((d.reply x).bind (bitsOf mapping.function mapping.quantity)).map packBits

/-- The analog registers in the response to the request after the next one. -/
def analogRegisters (d : ModbusTcpDriver) (mapping : ModbusMapping) (x : Exchange) :
    Option (List (BitVec 16)) :=
  (x.response (d.nextId + 1) d.config.unitId).bind (registersOf mapping.function mapping.quantity)

/-- When both requests are made, and the second call returns: the analog registers are received, or
the digital word is the old one. -/
def InputsKept (b : Build) (d : ModbusTcpDriver) (net : Network) : Prop :=
  ∀ connected word mapping, d.ensureConnected net = (.ok (), connected) →
    connected.digitalWord net.digital = some word →
    connected.config.analogInputMapping = some mapping →
    (b = .debug → ∀ header, net.analog.headerRead = some header →
      header.Answers (connected.nextId + 1) connected.config.unitId → header.length ≠ 0) →
    (connected.analogRegisters mapping net.analog).isSome = true ∨ word = d.inputs.digital

theorem frame_connect (d : ModbusTcpDriver) (results : Connecting) :
    Frame d (d.connect results).2 := by
  unfold connect
  split <;> exact ⟨rfl, rfl, rfl⟩

theorem frame_ensureConnected (d : ModbusTcpDriver) (net : Network) :
    Frame d (d.ensureConnected net).2 := by
  unfold ensureConnected tryReconnect
  split
  · split
    · exact ⟨rfl, rfl, rfl⟩
    · split
      · exact .refl d
      · have hconnect := frame_connect { d with
          reconnectAttempts := d.reconnectAttempts + 1
          state := .reconnecting } net.attempt.connecting
        dsimp only
        generalize ({ d with
          reconnectAttempts := d.reconnectAttempts + 1
          state := .reconnecting } : ModbusTcpDriver).connect net.attempt.connecting = answer
          at hconnect ⊢
        obtain ⟨r, d₁⟩ := answer
        cases r with
        | error e => exact ⟨hconnect.config, hconnect.inputs, hconnect.outputs⟩
        | ok u => exact ⟨hconnect.config, hconnect.inputs, hconnect.outputs⟩
  · exact .refl d

/-- What `read_digital_inputs` leaves when it returns. -/
inductive DigitalRead (d : ModbusTcpDriver) (x : Exchange) :
    PlcResult Unit → ModbusTcpDriver → Prop where
  | unmapped (mapping : d.config.digitalInputMapping = none) : DigitalRead d x (.ok ()) d
  | failed (e : PlcError) (d' : ModbusTcpDriver) (frame : Frame d d')
    (word : d.digitalWord x = none) : DigitalRead d x (.error e) d'
  | stored (d' : ModbusTcpDriver) (word : BitVec 32) (received : d.digitalWord x = some word)
    (config : d'.config = d.config) (inputs : d'.inputs = { d.inputs with digital := word })
    (connection : d'.connection.isSome = true) (transactionId : d'.transactionId = d.nextId) :
    DigitalRead d x (.ok ()) d'

theorem readDigitalInputs_outcome {r : PlcResult Unit}
    (h : d.readDigitalInputs b x = .ok (r, d')) : DigitalRead d x r d' := by
  unfold readDigitalInputs at h
  cases hmapping : d.config.digitalInputMapping with
  | none =>
    rw [hmapping] at h
    cases h
    exact .unmapped hmapping
  | some mapping =>
    rw [hmapping] at h
    have hword : d.digitalWord x =
        ((d.reply x).bind (bitsOf mapping.function mapping.quantity)).map packBits := by
      simp only [digitalWord, hmapping]
    rcases onSuccess_eq_ok h with ⟨e, hread, rfl⟩ | ⟨bits, d₁, hread, hrest⟩
    · have hreplied :=
        request_replied (decodeBits_decodes b mapping.function mapping.quantity) hread
      refine .failed e d' hreplied.frame ?_
      rw [hword, ← hreplied.result]
      rfl
    · have hreplied :=
        request_replied (decodeBits_decodes b mapping.function mapping.quantity) hread
      cases hrest
      obtain ⟨hconnection, hid⟩ := hreplied.after (by rw [← hreplied.result]; rfl)
      refine .stored _ (packBits bits) ?_ hreplied.frame.config ?_ hconnection hid
      · rw [hword, ← hreplied.result]
        rfl
      · dsimp only
        rw [hreplied.frame.inputs]

/-- A failed analog request leaves the inputs alone. -/
theorem readAnalogInputs_error {e : PlcError} (h : d.readAnalogInputs b x = .ok (.error e, d')) :
    Frame d d' ∧ ∃ mapping, d.config.analogInputMapping = some mapping ∧
      (d.reply x).bind (registersOf mapping.function mapping.quantity) = none ∧
        (b = .debug → d.LengthsInRange
          (wordsPdu mapping.function mapping.address mapping.quantity) x) := by
  unfold readAnalogInputs at h
  cases hmapping : d.config.analogInputMapping with
  | none =>
    rw [hmapping] at h
    cases h
  | some mapping =>
    rw [hmapping] at h
    rcases onSuccess_eq_ok h with ⟨e, hread, -⟩ | ⟨registers, d₁, -, hrest⟩
    · have hreplied :=
        request_replied (decodeRegisters_decodes mapping.function mapping.quantity) hread
      refine ⟨hreplied.frame, mapping, rfl, hreplied.result.symm, ?_⟩
      exact (request_returns_iff fun response =>
        (decodeRegisters_decodes mapping.function mapping.quantity response).returns).mp ⟨_, hread⟩
    · cases hrest

/-! ## The condition -/

/-- The length of a request with two words is always in range. -/
theorem lengthsInRange_wordsPdu (hconn : d.connection.isSome = true) (function : FunctionCode)
    (first second : BitVec 16) :
    d.LengthsInRange (wordsPdu function first second) x ↔
      ∀ header, x.headerRead = some header → header.Answers d.nextId d.config.unitId →
        header.length ≠ 0 := by
  constructor
  · exact fun h => (h hconn).2
  · intro h _
    refine ⟨?_, h⟩
    change 5 % 2 ^ 16 ≠ 2 ^ 16 - 1
    decide

theorem length_ne_zero_of_reply (hreply : (d.reply x).isSome = true) (header : MbapHeader)
    (hread : x.headerRead = some header) : header.length ≠ 0 := by
  intro hzero
  unfold reply Exchange.response at hreply
  rw [hread] at hreply
  dsimp only at hreply
  split at hreply
  · split at hreply
    · next haccepted =>
      have hpos := haccepted.2.1
      rw [hzero] at hpos
      exact absurd hpos (by decide)
    · cases hreply
  · cases hreply

theorem readDigitalInputs_stores {word : BitVec 32} (hword : d.digitalWord x = some word) :
    ∃ d', d.readDigitalInputs b x = .ok (.ok (), d') ∧ d'.config = d.config ∧
      d'.inputs = { d.inputs with digital := word } ∧ d'.connection.isSome = true ∧
        d'.transactionId = d.nextId := by
  have hreturns : ∃ answer, d.readDigitalInputs b x = .ok answer := by
    unfold readDigitalInputs
    unfold digitalWord at hword
    cases hmapping : d.config.digitalInputMapping with
    | none => exact ⟨_, rfl⟩
    | some mapping =>
      rw [hmapping] at hword
      have hreply : (d.reply x).isSome = true := by
        cases hreply : d.reply x with
        | none =>
          rw [hreply] at hword
          cases hword
        | some response => rfl
      have hconn : d.connection.isSome = true := by
        unfold reply at hreply
        split at hreply
        · assumption
        · cases hreply
      obtain ⟨answer, hanswer⟩ := (request_returns_iff fun response =>
        (decodeBits_decodes b mapping.function mapping.quantity response).returns).mpr
        fun _ => (lengthsInRange_wordsPdu hconn mapping.function mapping.address
          mapping.quantity).mpr fun header hread _ => length_ne_zero_of_reply hreply header hread
      dsimp only
      rw [readBits, hanswer]
      match answer with
      | (.error e, d₁) => exact ⟨_, rfl⟩
      | (.ok bits, d₁) => exact ⟨_, rfl⟩
  obtain ⟨⟨r, d'⟩, h⟩ := hreturns
  refine ⟨d', ?_⟩
  cases readDigitalInputs_outcome h with
  | unmapped hnone => simp [digitalWord, hnone] at hword
  | failed e _ _ hnone =>
    rw [hword] at hnone
    cases hnone
  | stored _ stored hreceived hconfig hinputs hconn hid =>
    rw [hword] at hreceived
    cases hreceived
    exact ⟨h, hconfig, hinputs, hconn, hid⟩

theorem readAnalogInputs_fails {mapping : ModbusMapping}
    (hmapping : d.config.analogInputMapping = some mapping)
    (hnone : (d.reply x).bind (registersOf mapping.function mapping.quantity) = none)
    (hlengths : b = .debug →
      d.LengthsInRange (wordsPdu mapping.function mapping.address mapping.quantity) x) :
    ∃ e d', d.readAnalogInputs b x = .ok (.error e, d') := by
  obtain ⟨⟨r, d'⟩, h⟩ := (request_returns_iff fun response =>
    (decodeRegisters_decodes mapping.function mapping.quantity response).returns).mpr hlengths
  have hreplied := request_replied (decodeRegisters_decodes mapping.function mapping.quantity) h
  have hresult := hreplied.result
  rw [hnone] at hresult
  unfold readAnalogInputs
  rw [hmapping]
  dsimp only
  rw [readRegisters, h]
  cases r with
  | error e => exact ⟨e, d', rfl⟩
  | ok registers => cases hresult

/-- After the digital request, the next one is the analog request. -/
theorem reply_eq_analogRegisters {d₁ : ModbusTcpDriver} (hconfig : d₁.config = d.config)
    (hconn : d₁.connection.isSome = true) (hid : d₁.transactionId = d.nextId)
    (mapping : ModbusMapping) :
    (d₁.reply x).bind (registersOf mapping.function mapping.quantity) =
      d.analogRegisters mapping x := by
  rw [reply, if_pos hconn, hconfig, nextId, hid]
  rfl

/-- When the analog request fails the inputs are the old ones exactly if the digital word is. -/
theorem inputs_kept_iff (b : Build) (d : ModbusTcpDriver) (net : Network) :
    (∀ e d', d.readInputs b net = .ok (.error e, d') → d'.getInputs = d.getInputs) ↔
      d.InputsKept b net := by
  have hframe := d.frame_ensureConnected net
  constructor
  · intro hkept connected word mapping hconnected hword hmapping hlengths
    rw [hconnected] at hframe
    obtain ⟨d₁, hdigital, hconfig, hinputs, hconn, hid⟩ := readDigitalInputs_stores (b := b) hword
    have hreply := reply_eq_analogRegisters (x := net.analog) hconfig hconn hid mapping
    cases hanalog : connected.analogRegisters mapping net.analog with
    | some registers => exact .inl rfl
    | none =>
      rw [hanalog] at hreply
      -- the analog request fails after the digital word has been stored
      obtain ⟨e, d', hfails⟩ :=
        readAnalogInputs_fails (b := b) (hconfig ▸ hmapping) hreply fun hb =>
        (lengthsInRange_wordsPdu hconn _ _ _).mpr (by
          rw [nextId, hid, hconfig]
          exact hlengths hb)
      have hread : d.readInputs b net = .ok (.error e, d') := by
        rw [readInputs, hconnected, onSuccess, hdigital]
        exact hfails
      have heq : d'.inputs = d.inputs := hkept e d' hread
      have hsame := (readAnalogInputs_error hfails).1.inputs
      right
      rw [← heq, hsame, hinputs]
  · intro hkept e d' h
    unfold readInputs at h
    rcases onSuccess_eq_ok h with ⟨e₁, hconnect, -⟩ | ⟨u, connected, hconnect, hrest⟩
    · have hafter : (d.ensureConnected net).2 = d' := by
        rw [Except.ok.inj hconnect]
      rw [hafter] at hframe
      exact hframe.inputs
    · have hafter := Except.ok.inj hconnect
      rw [hafter] at hframe
      rcases onSuccess_eq_ok hrest with ⟨e₁, hdigital, -⟩ | ⟨u₁, d₁, hdigital, hanalog⟩
      · cases readDigitalInputs_outcome hdigital with
        | failed _ _ hframe₁ _ => exact hframe₁.inputs.trans hframe.inputs
      · obtain ⟨hframe₂, mapping, hmapping, hnone, hlengths⟩ := readAnalogInputs_error hanalog
        cases readDigitalInputs_outcome hdigital with
        | unmapped _ => exact hframe₂.inputs.trans hframe.inputs
        | stored _ word hword hconfig hinputs hconn hid =>
          -- the call has returned, so its answer has passed the check of the length
          have hanswered : b = .debug → ∀ header, net.analog.headerRead = some header →
              header.Answers (connected.nextId + 1) connected.config.unitId →
                header.length ≠ 0 := by
            intro hb
            have hrange := (lengthsInRange_wordsPdu hconn _ _ _).mp (hlengths hb)
            rwa [nextId, hid, hconfig] at hrange
          rcases hkept connected word mapping hafter hword (hconfig ▸ hmapping) hanswered with
            hsome | hold
          · rw [← reply_eq_analogRegisters hconfig hconn hid, hnone] at hsome
            cases hsome
          · change d'.inputs = d.inputs
            rw [hframe₂.inputs, hinputs, hold, hframe.inputs]

/-- A server that answers the read of 32 discrete inputs, all on, and then closes the connection. -/
def halfRead : Network where
  attempt := ⟨0, ⟨.ok (), .ok (), .ok (), .ok ()⟩, 0⟩
  digital :=
    { send := .ok ()
      header := .ok #v[0, 1, 0, 0, 0, 7, 1]
      pdu := fun _ => .ok (Vector.ofFn fun i => [2, 4, 255, 255, 255, 255].getD i.val 0) }
  analog :=
    { send := .ok ()
      header := .error "failed to fill whole buffer"
      pdu := fun _ => .error "failed to fill whole buffer" }

/-- The failed read has changed the digital inputs. -/
theorem inputs_torn : ¬ ∀ (b : Build) (d : ModbusTcpDriver) (net : Network) (e : PlcError)
    (d' : ModbusTcpDriver), d.readInputs b net = .ok (.error e, d') →
      d'.getInputs = d.getInputs := by
  intro h
  let connected : ModbusTcpDriver :=
    ((withConfig .default).connect ⟨.ok (), .ok (), .ok (), .ok ()⟩).2
  have hensured : connected.ensureConnected halfRead = (.ok (), connected) := rfl
  have hword : connected.digitalWord halfRead.digital = some 0xFFFFFFFF := by decide +kernel
  obtain ⟨d₁, hdigital, hconfig, hinputs, hconn, hid⟩ :=
    readDigitalInputs_stores (b := .debug) hword
  have hreply := reply_eq_analogRegisters (x := halfRead.analog) hconfig hconn hid
    ⟨0, 16, .readInputRegisters⟩
  have hmapping : d₁.config.analogInputMapping = some ⟨0, 16, .readInputRegisters⟩ := hconfig ▸ rfl
  obtain ⟨e, d', hfails⟩ := readAnalogInputs_fails (b := .debug) hmapping hreply fun _ =>
    (lengthsInRange_wordsPdu hconn _ _ _).mpr fun header hread => by cases hread
  have hread : connected.readInputs .debug halfRead = .ok (.error e, d') := by
    rw [readInputs, hensured, onSuccess, hdigital]
    exact hfails
  have heq : d'.inputs = connected.inputs := h _ _ _ _ _ hread
  rw [(readAnalogInputs_error hfails).1.inputs, hinputs] at heq
  have hdigit : (0xFFFFFFFF : BitVec 32) = 0 := congrArg FieldbusInputs.digital heq
  revert hdigit
  decide

end ModbusTcpDriver

end VirtualPlc.Fieldbus

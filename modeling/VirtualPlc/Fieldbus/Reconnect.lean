import VirtualPlc.Control.Retry
import VirtualPlc.Fieldbus.Requests

/-!
# Reconnecting over a run

`connect` resets the counter and the timer, `try_reconnect` consults them, and an I/O error drops
the connection without touching either. Over all sequences of calls the driver is connected exactly
while it holds a connection, and its automatic attempts obey the retry policy of its configuration
(`History.retries`).
-/

set_option autoImplicit false

namespace VirtualPlc.Fieldbus

open VirtualPlc.Runtime VirtualPlc.Word VirtualPlc.Control

/-- The retry policy of a configuration. -/
def ModbusTcpConfig.retryPolicy (config : ModbusTcpConfig) : RetryPolicy Nat where
  budget := config.maxReconnectAttempts.toNat
  schedule := fun failedAt => failedAt + config.reconnectDelay

/-- Every step of `connect` succeeds. -/
def Connecting.succeeds (results : Connecting) : Bool :=
  results.stream.isOk && results.readTimeout.isOk && results.writeTimeout.isOk &&
    results.nodelay.isOk

namespace ModbusTcpDriver

/-- A call of the daemon. -/
inductive Call where
  | init (results : Connecting)
  | readInputs (net : Network)
  | writeOutputs (net : Network)
  | setOutputs (outputs : FieldbusOutputs)
  | shutdown

variable {b : Build} {config : ModbusTcpConfig} {d d' : ModbusTcpDriver} {x : Exchange}

/-- The driver after a call that returns. -/
def call (b : Build) (d : ModbusTcpDriver) : Call → Except Failure ModbusTcpDriver
  | .init results => .ok (d.init results).2
  | .readInputs net => do
    let (_, d) ← d.readInputs b net
    return d
  | .writeOutputs net => do
    let (_, d) ← d.writeOutputs b net
    return d
  | .setOutputs outputs => .ok (d.setOutputs outputs)
  | .shutdown => .ok d.shutdown.2

/-- `try_reconnect` gets to `connect`. -/
def Due (d : ModbusTcpDriver) (now : Nat) : Prop :=
  d.reconnectAttempts < d.config.maxReconnectAttempts ∧
    ∀ next ∈ d.nextReconnectTime, next ≤ now

instance (d : ModbusTcpDriver) (now : Nat) : Decidable (d.Due now) :=
  inferInstanceAs (Decidable (_ ∧ _))

/-- The automatic attempt of a call, if it makes one. -/
def attempts (d : ModbusTcpDriver) (attempt : Attempt) : List (LinkEvent Nat) :=
  if d.state ≠ .connected ∧ d.Due attempt.now then
    [.attempted attempt.now (if attempt.connecting.succeeds then none else some attempt.failedAt)]
  else []

/-- What a call shows of the link. -/
def linkEvents (d : ModbusTcpDriver) : Call → List (LinkEvent Nat)
  | .init results => if results.succeeds then [.opened] else []
  | .readInputs net | .writeOutputs net => d.attempts net.attempt
  | .setOutputs _ | .shutdown => []

/-- The same network, where a connection would have other results. -/
def withConnecting (net : Network) (results : Connecting) : Network :=
  { net with attempt := { net.attempt with connecting := results } }

/-- A driver after a sequence of calls that return, with the events of its link. -/
inductive History (b : Build) (config : ModbusTcpConfig) :
    List (LinkEvent Nat) → ModbusTcpDriver → Prop where
  | start : History b config [] (.withConfig config)
  | call {events : List (LinkEvent Nat)} {d d' : ModbusTcpDriver} (c : Call)
    (before : History b config events d) (returned : d.call b c = .ok d') :
    History b config (events ++ d.linkEvents c) d'

/-! ## Connecting -/

theorem connect_of_succeeds {results : Connecting} (h : results.succeeds = true) :
    d.connect results = (.ok (), { d with
      connection := some ⟨[]⟩
      state := .connected
      reconnectAttempts := 0
      nextReconnectTime := none }) := by
  obtain ⟨stream, readTimeout, writeTimeout, nodelay⟩ := results
  match stream, readTimeout, writeTimeout, nodelay, h with
  | .ok (), .ok (), .ok (), .ok (), _ => rfl

theorem connect_of_fails {results : Connecting} (h : results.succeeds = false) :
    ∃ e, d.connect results = (.error e, d) := by
  obtain ⟨stream, readTimeout, writeTimeout, nodelay⟩ := results
  match stream, readTimeout, writeTimeout, nodelay, h with
  | .error e, _, _, _, _ => exact ⟨_, rfl⟩
  | .ok (), .error e, _, _, _ => exact ⟨_, rfl⟩
  | .ok (), .ok (), .error e, _, _ => exact ⟨_, rfl⟩
  | .ok (), .ok (), .ok (), .error e, _ => exact ⟨_, rfl⟩

/-- An attempt that is not due asks nothing of the network. -/
theorem tryReconnect_of_not_due {attempt : Attempt} (h : ¬ d.Due attempt.now) :
    ∃ e, d.tryReconnect attempt =
      (.error e, if d.config.maxReconnectAttempts ≤ d.reconnectAttempts then
        { d with state := .failed } else d) := by
  unfold tryReconnect
  by_cases hmax : d.config.maxReconnectAttempts ≤ d.reconnectAttempts
  · rw [if_pos hmax, if_pos hmax]
    exact ⟨_, rfl⟩
  · rw [if_neg hmax, if_neg hmax]
    cases hnext : d.nextReconnectTime with
    | none => exact absurd ⟨BitVec.not_le.mp hmax, by simp [hnext]⟩ h
    | some next =>
      have hearly : attempt.now < next := by
        by_contra hlate
        exact h ⟨BitVec.not_le.mp hmax, by simpa [hnext] using hlate⟩
      simp only [Option.map_some, hearly, decide_true, if_true]
      exact ⟨_, rfl⟩

/-- An attempt that is not due does not depend on what a connection would give. -/
theorem tryReconnect_unasked {attempt : Attempt} (results : Connecting) (h : ¬ d.Due attempt.now) :
    d.tryReconnect { attempt with connecting := results } = d.tryReconnect attempt := by
  unfold tryReconnect
  by_cases hmax : d.config.maxReconnectAttempts ≤ d.reconnectAttempts
  · rw [if_pos hmax, if_pos hmax]
  · rw [if_neg hmax, if_neg hmax]
    have hearly : (d.nextReconnectTime.map fun next => decide (attempt.now < next)) =
        some true := by
      cases hnext : d.nextReconnectTime with
      | none => exact absurd ⟨BitVec.not_le.mp hmax, by simp [hnext]⟩ h
      | some next =>
        have hlt : attempt.now < next := by
          by_contra hlate
          exact h ⟨BitVec.not_le.mp hmax, by simpa [hnext] using hlate⟩
        rw [Option.map_some, decide_eq_true hlt]
    rw [if_pos hearly, if_pos hearly]

/-- Where no attempt is recorded, a call does not depend on what a connection would give. -/
theorem ensureConnected_unasked {net : Network} (results : Connecting)
    (h : d.attempts net.attempt = []) :
    d.ensureConnected (withConnecting net results) = d.ensureConnected net := by
  unfold ModbusTcpDriver.ensureConnected
  by_cases hstate : d.state = .connected
  · rw [if_neg (not_not.mpr hstate), if_neg (not_not.mpr hstate)]
  · rw [if_pos hstate, if_pos hstate]
    apply tryReconnect_unasked
    intro hdue
    rw [attempts, if_pos ⟨hstate, hdue⟩] at h
    cases h

theorem tryReconnect_of_due {attempt : Attempt} (h : d.Due attempt.now) :
    (attempt.connecting.succeeds = true ∧
      d.tryReconnect attempt = (.ok (), { d with
        connection := some ⟨[]⟩
        state := .connected
        reconnectAttempts := 0
        nextReconnectTime := none })) ∨
    (attempt.connecting.succeeds = false ∧ ∃ e,
      d.tryReconnect attempt = (.error e, { d with
        state := .reconnecting
        reconnectAttempts := d.reconnectAttempts + 1
        nextReconnectTime := some (attempt.failedAt + d.config.reconnectDelay) })) := by
  have hlate : (d.nextReconnectTime.map fun next => decide (attempt.now < next)) ≠ some true := by
    cases hnext : d.nextReconnectTime with
    | none => simp
    | some next =>
      have hle := h.2 next hnext
      simpa using hle
  -- due: the attempts are not used up and the delay is over
  unfold tryReconnect
  rw [if_neg (BitVec.not_le.mpr h.1), if_neg hlate]
  cases hconnect : attempt.connecting.succeeds with
  | true =>
    left
    dsimp only
    rw [connect_of_succeeds hconnect]
    exact ⟨rfl, rfl⟩
  | false =>
    right
    obtain ⟨e, he⟩ := connect_of_fails (d := { d with
      reconnectAttempts := d.reconnectAttempts + 1
      state := .reconnecting }) hconnect
    dsimp only
    rw [he]
    exact ⟨rfl, e, rfl⟩

/-! ## Requests -/

/-- A call leaves the counter and the timer alone, and the connection too unless it drops it. -/
structure LinkKept (d d' : ModbusTcpDriver) : Prop where
  config : d'.config = d.config
  reconnectAttempts : d'.reconnectAttempts = d.reconnectAttempts
  nextReconnectTime : d'.nextReconnectTime = d.nextReconnectTime
  link : (d'.state = d.state ∧ d'.connection.isSome = d.connection.isSome) ∨
    (d'.state = .disconnected ∧ d'.connection = none)

namespace LinkKept

theorem refl (d : ModbusTcpDriver) : LinkKept d d := ⟨rfl, rfl, rfl, .inl ⟨rfl, rfl⟩⟩

theorem trans {d₁ : ModbusTcpDriver} (h : LinkKept d d₁) (h' : LinkKept d₁ d') : LinkKept d d' where
  config := h'.config.trans h.config
  reconnectAttempts := h'.reconnectAttempts.trans h.reconnectAttempts
  nextReconnectTime := h'.nextReconnectTime.trans h.nextReconnectTime
  link := by
    rcases h'.link with ⟨hstate', hconn'⟩ | hdropped
    · rcases h.link with ⟨hstate, hconn⟩ | ⟨hstate, hconn⟩
      · exact .inl ⟨hstate'.trans hstate, hconn'.trans hconn⟩
      · refine .inr ⟨hstate'.trans hstate, ?_⟩
        rw [hconn] at hconn'
        exact Option.isSome_eq_false_iff.mp hconn' |> Option.isNone_iff_eq_none.mp
    · exact .inr hdropped

theorem disconnected (d : ModbusTcpDriver) : LinkKept d d.disconnected :=
  ⟨rfl, rfl, rfl, .inr ⟨rfl, rfl⟩⟩

/-- Reading bytes keeps the connection. -/
theorem received (d : ModbusTcpDriver) (offset : Nat) (bytes : List Byte) :
    LinkKept d (d.received offset bytes) :=
  ⟨rfl, rfl, rfl, .inl ⟨rfl, Option.isSome_map⟩⟩

end LinkKept

/-- What reading bytes and dropping the connection keep, reading a PDU keeps. -/
theorem receivePdu_keeps {P : ModbusTcpDriver → Prop} {n : Nat} {r : PlcResult (List Byte)}
    (hreceived : ∀ d offset bytes, P d → P (d.received offset bytes))
    (hdropped : ∀ d, P d → P d.disconnected) (hd : P d) (h : d.receivePdu n x = .ok (r, d')) :
    P d' := by
  unfold receivePdu at h
  split at h
  · cases h
    exact hd
  · split at h
    · cases h
      exact hdropped d hd
    · obtain ⟨pdu, -, h⟩ := bind_eq_ok.mp h
      cases h
      exact hreceived d _ _ hd

/-- The same for a whole response. -/
theorem receiveResponse_keeps {P : ModbusTcpDriver → Prop} {tid : BitVec 16}
    {r : PlcResult (List Byte)} (hreceived : ∀ d offset bytes, P d → P (d.received offset bytes))
    (hdropped : ∀ d, P d → P d.disconnected) (hd : P d)
    (h : d.receiveResponse b tid x = .ok (r, d')) : P d' := by
  cases hconn : d.connection with
  | none =>
    unfold receiveResponse at h
    rw [hconn] at h
    cases h
    exact hd
  | some conn =>
    cases hheader : x.header with
    | error e =>
      unfold receiveResponse at h
      rw [hconn, hheader] at h
      cases h
      exact hdropped d hd
    | ok bytes =>
      obtain ⟨header, hparsed⟩ :=
        MbapHeader.fromBytes_of_length (show bytes.toList.length = 7 by simp)
      have hread := hreceived d 0 bytes.toList hd
      rw [receiveResponse_eq hconn hheader hparsed] at h
      split at h
      · cases h
        exact hread
      · split at h
        · cases h
        · split at h
          · cases h
            exact hread
          · exact receivePdu_keeps hreceived hdropped hread h

/-- A request, also one that fails half-way. -/
theorem linkKept_sendRequest {pdu : List Byte} {r : PlcResult (List Byte)}
    (h : d.sendRequest b pdu x = .ok (r, d')) : LinkKept d d' := by
  unfold sendRequest at h
  split at h
  · cases h
    exact .refl d
  · obtain ⟨header, -, h⟩ := bind_eq_ok.mp h
    have hnext : LinkKept d d.nextTransactionId.2 := ⟨rfl, rfl, rfl, .inl ⟨rfl, rfl⟩⟩
    split at h
    · cases h
      exact hnext.trans (.disconnected _)
    · have hsent : LinkKept d (d.nextTransactionId.2.sent (header.toBytes ++ pdu)) :=
        ⟨rfl, rfl, rfl, .inl ⟨rfl, rfl⟩⟩
      exact receiveResponse_keeps (fun d offset bytes hd => hd.trans (.received d offset bytes))
        (fun d hd => hd.trans (.disconnected d)) hsent h

theorem linkKept_request {α : Type} {pdu : List Byte} {r : PlcResult α}
    {decode : List Byte → Except Failure (PlcResult α)}
    (h : d.request b pdu decode x = .ok (r, d')) : LinkKept d d' := by
  unfold request at h
  rcases onSuccess_eq_ok h with ⟨e, hsend, -⟩ | ⟨response, d₁, hsend, hrest⟩
  · exact linkKept_sendRequest hsend
  · obtain ⟨result, -, hrest⟩ := bind_eq_ok.mp hrest
    cases hrest
    exact linkKept_sendRequest hsend

theorem linkKept_writeCoils {address : BitVec 16} {values : List Bool} {r : PlcResult Unit}
    (h : d.writeCoils b address values x = .ok (r, d')) : LinkKept d d' := by
  unfold writeCoils at h
  split at h
  · cases h
    exact .refl d
  · exact linkKept_request h
  · exact linkKept_request h

theorem linkKept_writeRegisters {address : BitVec 16} {values : List (BitVec 16)}
    {r : PlcResult Unit} (h : d.writeRegisters b address values x = .ok (r, d')) :
    LinkKept d d' := by
  unfold writeRegisters at h
  split at h
  · cases h
    exact .refl d
  · exact linkKept_request h
  · exact linkKept_request h

/-- A request whose answer is stored with the inputs. -/
theorem linkKept_store {α : Type} {pdu : List Byte}
    {decode : List Byte → Except Failure (PlcResult α)} {r : PlcResult Unit}
    (store : α → FieldbusInputs → FieldbusInputs)
    (h : onSuccess (d.request b pdu decode x) (fun a d =>
      .ok (.ok (), { d with inputs := store a d.inputs })) = .ok (r, d')) : LinkKept d d' := by
  rcases onSuccess_eq_ok h with ⟨e, hread, -⟩ | ⟨a, d₁, hread, hrest⟩
  · exact linkKept_request hread
  · cases hrest
    exact (linkKept_request hread).trans ⟨rfl, rfl, rfl, .inl ⟨rfl, rfl⟩⟩

theorem linkKept_readDigitalInputs {r : PlcResult Unit}
    (h : d.readDigitalInputs b x = .ok (r, d')) : LinkKept d d' := by
  unfold readDigitalInputs at h
  split at h
  · cases h
    exact .refl d
  · exact linkKept_store (fun bits inputs => { inputs with digital := packBits bits }) h

theorem linkKept_readAnalogInputs {r : PlcResult Unit}
    (h : d.readAnalogInputs b x = .ok (r, d')) : LinkKept d d' := by
  unfold readAnalogInputs at h
  split at h
  · cases h
    exact .refl d
  · exact linkKept_store (fun registers inputs =>
      { inputs with analog := storeRegisters inputs.analog registers }) h

theorem linkKept_writeDigitalOutputs {r : PlcResult Unit}
    (h : d.writeDigitalOutputs b x = .ok (r, d')) : LinkKept d d' := by
  unfold writeDigitalOutputs at h
  split at h
  · cases h
    exact .refl d
  · obtain ⟨bits, -, h⟩ := bind_eq_ok.mp h
    exact linkKept_writeCoils h

theorem linkKept_writeAnalogOutputs {r : PlcResult Unit}
    (h : d.writeAnalogOutputs b x = .ok (r, d')) : LinkKept d d' := by
  unfold writeAnalogOutputs at h
  split at h
  · cases h
    exact .refl d
  · exact linkKept_writeRegisters h

/-- Both requests of a call, once the driver is connected. -/
def inTurn (first second : ModbusTcpDriver → Exchange → Except Failure (Answer Unit))
    (d : ModbusTcpDriver) (net : Network) : Except Failure (Answer Unit) :=
  onSuccess (.ok (d.ensureConnected net)) fun _ d =>
    onSuccess (first d net.digital) fun _ d => second d net.analog

theorem readInputs_eq (b : Build) (d : ModbusTcpDriver) :
    d.readInputs b = inTurn (readDigitalInputs b) (readAnalogInputs b) d := rfl

theorem writeOutputs_eq (b : Build) (d : ModbusTcpDriver) :
    d.writeOutputs b = inTurn (writeDigitalOutputs b) (writeAnalogOutputs b) d := rfl

theorem linkKept_inTurn {first second : ModbusTcpDriver → Exchange → Except Failure (Answer Unit)}
    (hfirst : ∀ {d x r d'}, first d x = .ok (r, d') → LinkKept d d')
    (hsecond : ∀ {d x r d'}, second d x = .ok (r, d') → LinkKept d d') {net : Network}
    {r : PlcResult Unit} (h : inTurn first second d net = .ok (r, d')) :
    LinkKept (d.ensureConnected net).2 d' := by
  rcases onSuccess_eq_ok h with ⟨e, hensured, -⟩ | ⟨u, d₁, hensured, hrest⟩
  · rw [Except.ok.inj hensured]
    exact .refl d'
  · rw [Except.ok.inj hensured]
    rcases onSuccess_eq_ok hrest with ⟨e, hone, -⟩ | ⟨v, d₂, hone, htwo⟩
    · exact hfirst hone
    · exact (hfirst hone).trans (hsecond htwo)

/-! ## The invariant -/

/-- The link is up exactly while a connection is held, and the counter and the timer are those of
the retry policy after the events. -/
structure Agrees (config : ModbusTcpConfig) (events : List (LinkEvent Nat))
    (d : ModbusTcpDriver) : Prop where
  configured : d.config = config
  connected_iff : d.state = .connected ↔ d.connection.isSome = true
  after : config.retryPolicy.after events = ⟨d.reconnectAttempts.toNat, d.nextReconnectTime⟩
  within : d.reconnectAttempts ≤ config.maxReconnectAttempts
  obeys : config.retryPolicy.Obeys events

variable {events : List (LinkEvent Nat)}

theorem agrees_start : Agrees config [] (.withConfig config) where
  configured := rfl
  connected_iff := by simp [withConfig]
  after := rfl
  within := Nat.zero_le _
  obeys := RetryPolicy.obeys_nil

theorem Agrees.kept (h : Agrees config events d) (hkept : LinkKept d d') :
    Agrees config events d' where
  configured := hkept.config.trans h.configured
  connected_iff := by
    rcases hkept.link with ⟨hstate, hconn⟩ | ⟨hstate, hconn⟩
    · rw [hstate, hconn]
      exact h.connected_iff
    · simp [hstate, hconn]
  after := by rw [hkept.reconnectAttempts, hkept.nextReconnectTime, h.after]
  within := by
    rw [hkept.reconnectAttempts]
    exact h.within
  obeys := h.obeys

/-- The link opens, whatever opened it. -/
theorem Agrees.connected (h : Agrees config events d) {event : LinkEvent Nat}
    (hfresh : config.retryPolicy.next (config.retryPolicy.after events) event = .fresh)
    (hallowed : config.retryPolicy.Allows (config.retryPolicy.after events) event) :
    Agrees config (events ++ [event]) { d with
      connection := some ⟨[]⟩
      state := .connected
      reconnectAttempts := 0
      nextReconnectTime := none } where
  configured := h.configured
  connected_iff := by simp
  after := by
    rw [RetryPolicy.after_append, List.foldl_cons, hfresh]
    rfl
  within := Nat.zero_le _
  obeys := RetryPolicy.obeys_concat.mpr ⟨h.obeys, hallowed⟩

theorem Agrees.init (h : Agrees config events d) (results : Connecting) :
    Agrees config (events ++ d.linkEvents (.init results)) (d.connect results).2 := by
  rw [linkEvents]
  cases hconnect : results.succeeds with
  | true =>
    rw [if_pos rfl, connect_of_succeeds hconnect]
    exact h.connected rfl trivial
  | false =>
    obtain ⟨e, he⟩ := connect_of_fails (d := d) hconnect
    rw [if_neg Bool.false_ne_true, List.append_nil, he]
    exact h

/-- An attempt that is due is allowed by the policy. -/
theorem Agrees.allows (h : Agrees config events d) {now : Nat} (hdue : d.Due now)
    (failedAt : Option Nat) :
    config.retryPolicy.Allows (config.retryPolicy.after events) (.attempted now failedAt) := by
  rw [h.after]
  refine ⟨?_, fun due hnext => hdue.2 due hnext⟩
  have hlt := hdue.1
  rw [h.configured] at hlt
  exact hlt

theorem Agrees.tryReconnect (h : Agrees config events d) (hdown : d.state ≠ .connected)
    (attempt : Attempt) :
    Agrees config (events ++ d.attempts attempt) (d.tryReconnect attempt).2 := by
  have hnone : d.connection = none := by
    cases hconn : d.connection with
    | none => rfl
    | some conn => exact absurd (h.connected_iff.mpr (by rw [hconn]; rfl)) hdown
  by_cases hdue : d.Due attempt.now
  · rw [attempts, if_pos ⟨hdown, hdue⟩]
    rcases tryReconnect_of_due hdue with ⟨hconnect, heq⟩ | ⟨hconnect, e, heq⟩
    · rw [hconnect, if_pos rfl, heq]
      exact h.connected rfl (h.allows hdue none)
    · rw [hconnect, if_neg Bool.false_ne_true, heq]
      have hlt : d.reconnectAttempts.toNat < d.config.maxReconnectAttempts.toNat := hdue.1
      -- the counter stays below the bound, so it does not wrap
      have hsucc : (d.reconnectAttempts + 1).toNat = d.reconnectAttempts.toNat + 1 := by
        have hmax := d.config.maxReconnectAttempts.isLt
        rw [BitVec.toNat_add]
        exact Nat.mod_eq_of_lt (show d.reconnectAttempts.toNat + 1 < 2 ^ 32 by omega)
      refine ⟨h.configured, ?_, ?_, ?_, RetryPolicy.obeys_concat.mpr ⟨h.obeys, h.allows hdue _⟩⟩
      · simp [hnone]
      · rw [RetryPolicy.after_append, h.after]
        dsimp only
        rw [hsucc, h.configured]
        rfl
      · rw [← h.configured, BitVec.le_def]
        dsimp only
        omega
  · rw [attempts, if_neg fun hboth => hdue hboth.2, List.append_nil]
    obtain ⟨e, heq⟩ := tryReconnect_of_not_due hdue
    rw [heq]
    dsimp only
    split
    · refine ⟨h.configured, ?_, h.after, h.within, h.obeys⟩
      simp [hnone]
    · exact h

theorem Agrees.ensureConnected (h : Agrees config events d) (net : Network) :
    Agrees config (events ++ d.attempts net.attempt) (d.ensureConnected net).2 := by
  unfold ModbusTcpDriver.ensureConnected
  by_cases hstate : d.state = .connected
  · rw [if_neg (not_not.mpr hstate), attempts, if_neg fun hboth => hboth.1 hstate, List.append_nil]
    exact h
  · rw [if_pos hstate]
    exact h.tryReconnect hstate net.attempt

/-- Every call keeps the invariant. -/
theorem Agrees.call (h : Agrees config events d) {c : Call} (hcall : d.call b c = .ok d') :
    Agrees config (events ++ d.linkEvents c) d' := by
  cases c with
  | init results =>
    cases hcall
    exact h.init results
  | readInputs net =>
    obtain ⟨⟨r, d₁⟩, hread, hrest⟩ := bind_eq_ok.mp hcall
    cases hrest
    rw [readInputs_eq] at hread
    exact (h.ensureConnected net).kept
      (linkKept_inTurn linkKept_readDigitalInputs linkKept_readAnalogInputs hread)
  | writeOutputs net =>
    obtain ⟨⟨r, d₁⟩, hwrite, hrest⟩ := bind_eq_ok.mp hcall
    cases hrest
    rw [writeOutputs_eq] at hwrite
    exact (h.ensureConnected net).kept
      (linkKept_inTurn linkKept_writeDigitalOutputs linkKept_writeAnalogOutputs hwrite)
  | setOutputs outputs =>
    cases hcall
    rw [linkEvents, List.append_nil]
    exact h.kept ⟨rfl, rfl, rfl, .inl ⟨rfl, rfl⟩⟩
  | shutdown =>
    cases hcall
    rw [linkEvents, List.append_nil]
    exact h.kept (.disconnected d)

theorem History.agrees (h : History b config events d) : Agrees config events d := by
  induction h with
  | start => exact agrees_start
  | call c _ returned ih => exact ih.call returned

/-- The attempt of a call is allowed, also if the call panics after it. -/
theorem Agrees.obeys_linkEvents (h : Agrees config events d) (c : Call) :
    config.retryPolicy.Obeys (events ++ d.linkEvents c) := by
  cases c with
  | init results => exact (h.init results).obeys
  | readInputs net | writeOutputs net => exact (h.ensureConnected net).obeys
  | setOutputs _ | shutdown =>
    rw [linkEvents, List.append_nil]
    exact h.obeys

/-- Where no attempt is recorded, a whole call does not depend on what a connection would give. -/
theorem inTurn_unasked {first second : ModbusTcpDriver → Exchange → Except Failure (Answer Unit)}
    {net : Network} (results : Connecting) (h : d.attempts net.attempt = []) :
    inTurn first second d (withConnecting net results) = inTurn first second d net := by
  rw [inTurn, inTurn, ensureConnected_unasked results h]
  rfl

/-- After every sequence of calls the driver is connected exactly while it holds a connection, and
has counted no more attempts than allowed. The attempts made so far, with the one of the next call,
are spaced and bounded by the policy. They are all there are: a next call for which none is recorded
does not depend on what a connection would give. -/
theorem History.retries (h : History b config events d) :
    (d.state = .connected ↔ d.connection.isSome = true) ∧
      d.reconnectAttempts ≤ config.maxReconnectAttempts ∧
      (∀ c, config.retryPolicy.Bounded (events ++ d.linkEvents c)) ∧
      ∀ (net : Network) (results : Connecting), d.attempts net.attempt = [] →
        d.readInputs b (withConnecting net results) = d.readInputs b net ∧
          d.writeOutputs b (withConnecting net results) = d.writeOutputs b net := by
  refine ⟨h.agrees.connected_iff, h.agrees.within,
    fun c => (h.agrees.obeys_linkEvents c).bounded, ?_⟩
  intro net results hnone
  rw [readInputs_eq, writeOutputs_eq]
  exact ⟨inTurn_unasked results hnone, inTurn_unasked results hnone⟩

/-- A server that never answers. -/
def silent : Exchange where
  send := .ok ()
  header := .error "failed to fill whole buffer"
  pdu := fun _ => .error "failed to fill whole buffer"

/-- A server that refuses a connection at time 7. -/
def refused : Network where
  attempt := ⟨7, ⟨.error "connection refused", .ok (), .ok (), .ok ()⟩, 9⟩
  digital := silent
  analog := silent

/-- Connected, shut down, and refused at the next read. -/
theorem history_refused : ∃ d, History .debug .default [.opened, .attempted 7 (some 9)] d := by
  have hinit : History .debug .default [.opened] _ :=
    .call (.init ⟨.ok (), .ok (), .ok (), .ok ()⟩) .start rfl
  have hshutdown : History .debug .default [.opened] _ := .call .shutdown hinit rfl
  exact ⟨_, .call (.readInputs refused) hshutdown rfl⟩

/-- The refused driver has counted one attempt of three. -/
theorem retries_refused : ∃ d, (d.state = .connected ↔ d.connection.isSome = true) ∧
    d.reconnectAttempts ≤ 3 ∧ (∀ c, ModbusTcpConfig.default.retryPolicy.Bounded
      ([.opened, .attempted 7 (some 9)] ++ linkEvents d c)) ∧
      ∀ (net : Network) (results : Connecting), d.attempts net.attempt = [] →
        d.readInputs .debug (withConnecting net results) = d.readInputs .debug net ∧
          d.writeOutputs .debug (withConnecting net results) = d.writeOutputs .debug net := by
  obtain ⟨d, hd⟩ := history_refused
  exact ⟨d, History.retries hd⟩

end ModbusTcpDriver

end VirtualPlc.Fieldbus

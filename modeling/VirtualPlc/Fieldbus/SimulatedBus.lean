import VirtualPlc.Fieldbus.BusProtocol
import VirtualPlc.Fieldbus.BusScan
import VirtualPlc.Fieldbus.ImageCodec

/-!
# The master on the simulated bus

The simulated transport keeps slaves, their state and a clock, and answers every call. Here it is
put under the master: an operation is given the transport's own answers, and the transport takes the
calls that the operation has made. Every run is then an exchange of calls and true answers
(`Served`, `answered_step`).
-/

set_option autoImplicit false

namespace VirtualPlc.Fieldbus

open VirtualPlc.Runtime VirtualPlc.Word

/-! ## The transport -/

/-- The simulated transport. -/
structure SimulatedTransport where
  slaves : List SlaveConfig
  currentState : SlaveState
  dcTime : BitVec 64
  cycleCount : BitVec 64
  cycleTimeNs : BitVec 64
  isOpen : Bool

/-- Counts 1 for a slave with PDOs to the master and 2 for one with PDOs from it. -/
def countPdos (b : Build) (wkc : BitVec 16) (slave : SlaveConfig) : Except Failure (BitVec 16) := do
  let wkc ← countSize b wkc slave.calculateInputSize 1
  countSize b wkc slave.calculateOutputSize 2

/-- Simulates input data: the first byte is that of the outputs, the next two are a sine wave. -/
def simulateInputs (sine : BitVec 16) (outputs inputs : List (BitVec 8)) : List (BitVec 8) :=
  let inputs :=
    match inputs, outputs with
    | _ :: rest, first :: _ => first :: rest
    | _, _ => inputs
  match inputs with
  | first :: _ :: _ :: rest => first :: leByte sine.toNat 0 :: leByte sine.toNat 1 :: rest
  | _ => inputs

namespace SimulatedTransport

def new (config : EthercatConfig) : SimulatedTransport where
  slaves := []
  currentState := .init
  dcTime := 0
  cycleCount := 0
  cycleTimeNs := BitVec.ofNat 64 config.dcSync0Cycle.ns
  isOpen := true

def addSlave (t : SimulatedTransport) (slave : SlaveConfig) : SimulatedTransport :=
  { t with slaves := t.slaves ++ [slave] }

/-- The error of a transport that has been closed. -/
def notOpen : PlcError := .fieldbusError "Transport not open"

def scanSlaves (t : SimulatedTransport) : PlcResult (List SlaveConfig) × SimulatedTransport :=
  if !t.isOpen then (.error notOpen, t) else (.ok t.slaves, t)

def setState (t : SimulatedTransport) (state : SlaveState) : PlcResult Unit × SimulatedTransport :=
  if !t.isOpen then (.error notOpen, t) else (.ok (), { t with currentState := state })

def configureSlaveDc (t : SimulatedTransport) (_config : DcSlaveConfig) :
    PlcResult Unit × SimulatedTransport := (.ok (), t)

/-- Reads the clock, which goes on by a cycle. -/
def readDcTime (b : Build) (t : SimulatedTransport) :
    Except Failure (PlcResult (BitVec 64) × SimulatedTransport) := do
  let dcTime ← u64Add b t.dcTime.toNat t.cycleTimeNs.toNat
  let t := { t with dcTime := BitVec.ofNat 64 dcTime }
  return (.ok t.dcTime, t)

/-- Exchanges process data; `sine` is the wave at a cycle. -/
def exchange (b : Build) (sine : BitVec 64 → BitVec 16) (t : SimulatedTransport)
    (outputs inputs : List (BitVec 8)) :
    Except Failure (PlcResult (BitVec 16) × List (BitVec 8) × SimulatedTransport) :=
  if !t.isOpen then .ok (.error notOpen, inputs, t)
  else do
    let cycleCount ← u64Add b t.cycleCount.toNat 1
    let t := { t with cycleCount := BitVec.ofNat 64 cycleCount }
    let inputs := simulateInputs (sine t.cycleCount) outputs inputs
    let wkc ← t.slaves.foldlM (countPdos b) 0
    return (.ok wkc, inputs, t)

def sdoRead (t : SimulatedTransport) (_request : SdoRequest) :
    PlcResult (List (BitVec 8)) × SimulatedTransport := (.ok (List.replicate 4 0), t)

def sdoWrite (t : SimulatedTransport) (_request : SdoRequest) :
    PlcResult Unit × SimulatedTransport := (.ok (), t)

def close (t : SimulatedTransport) : PlcResult Unit × SimulatedTransport :=
  (.ok (), { t with isOpen := false })

variable (b : Build) (sine : BitVec 64 → BitVec 16)

/-- Takes a call, and gives it with the answer of its own. The bytes that an exchange leaves in the
input buffer are no part of a call. -/
def serve (t : SimulatedTransport) :
    TransportCall → Except Failure (TransportCall × SimulatedTransport)
  | .scanSlaves _ => .ok (.scanSlaves t.scanSlaves.1, t.scanSlaves.2)
  | .setState state _ => .ok (.setState state (t.setState state).1, (t.setState state).2)
  | .configureSlaveDc config _ =>
    .ok (.configureSlaveDc config (t.configureSlaveDc config).1, (t.configureSlaveDc config).2)
  | .readDcTime _ => do
    let (result, t) ← t.readDcTime b
    return (.readDcTime result, t)
  | .exchange outputs _ => do
    let (result, _, t) ← t.exchange b sine outputs []
    return (.exchange outputs result, t)
  | .sdoRead request _ => .ok (.sdoRead request (t.sdoRead request).1, (t.sdoRead request).2)
  | .sdoWrite request _ => .ok (.sdoWrite request (t.sdoWrite request).1, (t.sdoWrite request).2)
  | .close _ => .ok (.close t.close.1, t.close.2)

/-- Takes calls one after the other. -/
def replay (t : SimulatedTransport) (calls : List TransportCall) :
    Except Failure SimulatedTransport :=
  calls.foldlM (fun t call => do
    let (_, t) ← t.serve b sine call
    return t) t

end SimulatedTransport

/-! ## The bus -/

/-- A master on a simulated transport. -/
structure SimulatedBus where
  master : EthercatMaster
  transport : SimulatedTransport

/-- What is asked of the master. The time that an exchange takes and the time since the clocks were
started are not the transport's. -/
inductive BusRequest where
  | init
  | scanSlaves
  | configureSlaves
  | configureDc
  | enterSafeOp
  | enterOp
  | exchange (rttUs : BitVec 32) (elapsed : Duration)
  | sdoRead (request : SdoRequest)
  | sdoWrite (request : SdoRequest)
  | shutdown

/-- What is done with a bus. -/
inductive BusOperation where
  | ask (request : BusRequest)
  | setOutputs (outputs : FieldbusOutputs)

namespace SimulatedBus

/-- A master that has not been started, on a transport with these slaves. -/
def new (config : EthercatConfig) (slaves : List SlaveConfig) : SimulatedBus where
  master := .withTransport config
  transport := slaves.foldl SimulatedTransport.addSlave (.new config)

variable (b : Build) (sine : BitVec 64 → BitVec 16)

/-- The time that the clock is at next. -/
def nextDcTime (t : SimulatedTransport) : BitVec 64 := t.dcTime + t.cycleTimeNs

/-- The transport's answers to an exchange. -/
def exchangeAnswers (s : SimulatedBus) (rttUs : BitVec 32) (elapsed : Duration) : ExchangeAnswers :=
  let answer :=
    s.transport.exchange b sine s.master.processImage.outputs s.master.processImage.inputs
  let received :=
    match answer with
    | .ok (_, inputs, _) => inputs
    | .error _ => s.master.processImage.inputs
  { exchange :=
      match answer with
      | .ok (result, _, _) => result
      | .error _ => .ok 0
    received := fun i => received.getD i 0
    rttUs := rttUs
    dcTime := .ok (nextDcTime s.transport)
    elapsed := elapsed }

/-- The operation of the master, with the transport's answers. -/
def answered (s : SimulatedBus) : BusRequest → MasterOperation
  | .init => .init
    { scan := s.transport.scanSlaves.1
      preOp := (s.transport.setState .preOp).1
      dcTime := .ok (nextDcTime s.transport)
      configureDc := fun config => (s.transport.configureSlaveDc config).1
      safeOp := (s.transport.setState .safeOp).1
      op := (s.transport.setState .op).1 }
  | .scanSlaves => .scanSlaves s.transport.scanSlaves.1
  | .configureSlaves => .configureSlaves (s.transport.setState .preOp).1
  | .configureDc => .configureDc (.ok (nextDcTime s.transport))
    fun config => (s.transport.configureSlaveDc config).1
  | .enterSafeOp => .enterSafeOp (s.transport.setState .safeOp).1
  | .enterOp => .enterOp (s.transport.setState .op).1
  | .exchange rttUs elapsed => .exchange (s.exchangeAnswers b sine rttUs elapsed)
  | .sdoRead request => .sdoRead request (s.transport.sdoRead request).1
  | .sdoWrite request => .sdoWrite request (s.transport.sdoWrite request).1
  | .shutdown => .shutdown
    { safeOp := (s.transport.setState .safeOp).1
      preOp := (s.transport.setState .preOp).1
      init := (s.transport.setState .init).1
      close := s.transport.close.1 }

/-- The master's part of an operation. -/
def drive (s : SimulatedBus) : BusOperation → Except Failure EthercatMaster
  | .ask request => (s.answered b sine request).apply b s.master
  | .setOutputs outputs => do
    let image ← s.master.processImage.setOutputs outputs
    return { s.master with processImage := image }

/-- One operation: the master takes the transport's answers, and the transport takes the calls that
the master has made. -/
def step (s : SimulatedBus) (op : BusOperation) : Except Failure SimulatedBus := do
  let master ← s.drive b sine op
  let transport ← s.transport.replay b sine
    (master.transport.drop s.master.transport.length)
  return ⟨master, transport⟩

/-- A new bus after some operations. -/
def run (config : EthercatConfig) (slaves : List SlaveConfig) (ops : List BusOperation) :
    Except Failure SimulatedBus :=
  ops.foldlM (step b sine) (new config slaves)

end SimulatedBus

/-! ## True answers -/

section Answers

variable (b : Build) (sine : BitVec 64 → BitVec 16)

/-- The transport goes from one state to another by answering these calls, each with the answer that
the call has. -/
inductive Served : SimulatedTransport → List TransportCall → SimulatedTransport → Prop where
  | nil (t : SimulatedTransport) : Served t [] t
  | cons {t t' t'' : SimulatedTransport} {c : TransportCall} {calls : List TransportCall}
      (hserve : t.serve b sine c = .ok (c, t')) (hrest : Served t' calls t'') :
      Served t (c :: calls) t''

/-- As long as the transport does not panic, it answers these calls as they are answered, and ends
in a state that meets `Q`. -/
def Agrees (Q : SimulatedTransport → Prop) (t : SimulatedTransport) : List TransportCall → Prop
  | [] => Q t
  | c :: calls => ∀ c' t', t.serve b sine c = .ok (c', t') → c' = c ∧ Agrees Q t' calls

/-- On the way from one state of the master to another, the calls are answered as the transport
does in every state that meets `P`, and lead it to one that meets `Q`. -/
def Asks (P Q : SimulatedTransport → Prop) (m m' : EthercatMaster) : Prop :=
  ∃ calls, m'.transport = m.transport ++ calls ∧ ∀ t, P t → Agrees b sine Q t calls

variable {b sine} {P Q R : SimulatedTransport → Prop} {t t' t'' : SimulatedTransport}
  {m m' m'' : EthercatMaster} {calls more : List TransportCall}

theorem Served.append (h : Served b sine t calls t') (h' : Served b sine t' more t'') :
    Served b sine t (calls ++ more) t'' := by
  induction h with
  | nil t => exact h'
  | cons hserve _ ih => exact .cons hserve (ih h')

theorem Agrees.append (h : Agrees b sine Q t calls)
    (h' : ∀ t', Q t' → Agrees b sine R t' more) : Agrees b sine R t (calls ++ more) := by
  induction calls generalizing t with
  | nil => exact h' t h
  | cons c rest ih =>
    intro c' t' hserve
    obtain ⟨heq, hrest⟩ := h c' t' hserve
    exact ⟨heq, ih hrest⟩

/-- What the transport answers to recorded calls are the recorded answers. -/
theorem Agrees.served (h : Agrees b sine Q t calls) (hreplay : t.replay b sine calls = .ok t') :
    Served b sine t calls t' ∧ Q t' := by
  induction calls generalizing t with
  | nil =>
    cases hreplay
    exact ⟨.nil _, h⟩
  | cons c rest ih =>
    rw [SimulatedTransport.replay, List.foldlM_cons] at hreplay
    obtain ⟨t₁, hfirst, hrest⟩ := bind_eq_ok.1 hreplay
    obtain ⟨⟨c', t₂⟩, hserve, heq⟩ := bind_eq_ok.1 hfirst
    cases heq
    obtain ⟨rfl, hagrees⟩ := h c' t₁ hserve
    obtain ⟨hserved, hQ⟩ := ih hagrees hrest
    exact ⟨.cons hserve hserved, hQ⟩

theorem Asks.refl (htransport : m'.transport = m.transport) : Asks b sine P P m m' :=
  ⟨[], by rw [htransport, List.append_nil], fun _ h => h⟩

theorem Asks.mono (h : Asks b sine P Q m m') (hQ : ∀ t, Q t → R t) : Asks b sine P R m m' := by
  obtain ⟨calls, htransport, hagrees⟩ := h
  refine ⟨calls, htransport, fun t hP => ?_⟩
  have hagree : Agrees b sine R t (calls ++ []) := (hagrees t hP).append hQ
  rwa [List.append_nil] at hagree

theorem Asks.trans (h : Asks b sine P Q m m') (h' : Asks b sine Q R m' m'') :
    Asks b sine P R m m'' := by
  obtain ⟨calls, htransport, hagrees⟩ := h
  obtain ⟨more, htransport', hagrees'⟩ := h'
  refine ⟨calls ++ more, ?_, fun t hP => (hagrees t hP).append hagrees'⟩
  rw [htransport', htransport, List.append_assoc]

/-- One call. -/
theorem Asks.call {c : TransportCall} (htransport : m'.transport = m.transport ++ [c])
    (hserve : ∀ t, P t → ∀ c' t', t.serve b sine c = .ok (c', t') → c' = c ∧ Q t') :
    Asks b sine P Q m m' :=
  ⟨[c], htransport, hserve⟩

/-- What the answers to commands and scans depend on. -/
structure Like (t₀ t : SimulatedTransport) : Prop where
  slaves : t.slaves = t₀.slaves
  isOpen : t.isOpen = t₀.isOpen

/-- What an answer of the clock depends on as well. -/
structure Clocked (t₀ t : SimulatedTransport) : Prop extends Like t₀ t where
  dcTime : t.dcTime = t₀.dcTime
  cycleTimeNs : t.cycleTimeNs = t₀.cycleTimeNs

/-- A command changes only the state of the slaves, which no answer depends on. -/
structure Stable (t₀ : SimulatedTransport) (P : SimulatedTransport → Prop) : Prop where
  like : ∀ t, P t → Like t₀ t
  setState : ∀ t state, P t → P { t with currentState := state }

variable {t₀ : SimulatedTransport}

theorem stable_like : Stable t₀ (Like t₀) := ⟨fun _ h => h, fun _ _ h => ⟨h.slaves, h.isOpen⟩⟩

theorem stable_clocked : Stable t₀ (Clocked t₀) :=
  ⟨fun _ h => h.toLike, fun _ _ h => ⟨⟨h.slaves, h.isOpen⟩, h.dcTime, h.cycleTimeNs⟩⟩

theorem setState_answer (h : t.isOpen = t₀.isOpen) (state : SlaveState) :
    (t.setState state).1 = (t₀.setState state).1 := by
  unfold SimulatedTransport.setState
  rw [h]
  split <;> rfl

theorem setState_keeps (hP : Stable t₀ P) (ht : P t) (state : SlaveState) :
    P (t.setState state).2 := by
  unfold SimulatedTransport.setState
  split
  · exact ht
  · exact hP.setState t state ht

theorem asks_setState (hP : Stable t₀ P) (state : SlaveState)
    (htransport : m'.transport = m.transport ++ [.setState state (t₀.setState state).1]) :
    Asks b sine P P m m' := by
  apply Asks.call htransport
  intro t ht c' t' hserve
  cases hserve
  refine ⟨?_, setState_keeps hP ht state⟩
  rw [setState_answer (hP.like t ht).isOpen]

theorem asks_advance (hP : Stable t₀ P) (source : MasterState) (action : String)
    (command : SlaveState) (target : MasterState) (m : EthercatMaster) :
    Asks b sine P P m (EthercatMaster.advance source action command target m
      (t₀.setState command).1).2 := by
  unfold EthercatMaster.advance
  split
  · exact .refl rfl
  · cases hanswer : (t₀.setState command).1 with
    | error e => exact asks_setState hP command (by rw [hanswer]; rfl)
    | ok u => exact asks_setState hP command (by rw [hanswer]; rfl)

theorem asks_stepDown (hP : Stable t₀ P) (source : MasterState) (command : SlaveState)
    (target : MasterState) (m : EthercatMaster) :
    Asks b sine P P m (EthercatMaster.stepDown source command target m
      (t₀.setState command).1).2 := by
  unfold EthercatMaster.stepDown
  split
  · cases hanswer : (t₀.setState command).1 with
    | error e => exact asks_setState hP command (by rw [hanswer]; rfl)
    | ok u => exact asks_setState hP command (by rw [hanswer]; rfl)
  · exact .refl rfl

theorem asks_andThen {step : PlcResult Unit × EthercatMaster}
    {f : EthercatMaster → PlcResult Unit × EthercatMaster} (hstep : Asks b sine P Q m step.2)
    (hdone : ∀ t, Q t → R t) (hf : ∀ m', Asks b sine Q R m' (f m').2) :
    Asks b sine P R m (EthercatMaster.andThen step f).2 := by
  obtain ⟨result, m'⟩ := step
  cases result with
  | error e => exact hstep.mono hdone
  | ok u => exact hstep.trans (hf m')

theorem transport_foldl_addScanned (m : EthercatMaster) (slaves : List SlaveConfig) :
    (slaves.foldl EthercatMaster.addScanned m).transport = m.transport := by
  induction slaves generalizing m with
  | nil => rfl
  | cons slave rest ih => exact ih (m.addScanned slave)

theorem asks_scanSlaves {r : PlcResult Nat × EthercatMaster}
    (h : m.scanSlaves b t₀.scanSlaves.1 = .ok r) :
    Asks b sine (Clocked t₀) (Clocked t₀) m r.2 := by
  have htransport : r.2.transport = m.transport ++ [.scanSlaves t₀.scanSlaves.1] := by
    cases hanswer : t₀.scanSlaves.1 with
    | error e =>
      rw [hanswer] at h
      cases h
      rfl
    | ok slaves =>
      rw [hanswer, EthercatMaster.scanSlaves] at h
      obtain ⟨expectedWkc, -, h⟩ := bind_eq_ok.1 h
      cases h
      exact transport_foldl_addScanned _ slaves
  apply Asks.call htransport
  intro t ht c' t' hserve
  cases hserve
  rw [SimulatedTransport.scanSlaves, SimulatedTransport.scanSlaves, ht.isOpen, ht.slaves]
  cases t₀.isOpen with
  | false => exact ⟨rfl, ht⟩
  | true => exact ⟨rfl, ht⟩

theorem asks_configureDcSlaves (m : EthercatMaster) (slaves : List DcSlaveConfig) :
    Asks b sine P P m (EthercatMaster.configureDcSlaves
      (fun config => (t₀.configureSlaveDc config).1) m slaves).2 := by
  induction slaves generalizing m with
  | nil => exact .refl rfl
  | cons slave rest ih =>
    rw [EthercatMaster.configureDcSlaves]
    split
    · -- the simulated slaves take every configuration
      have hcall : Asks b sine P P m (m.call (.configureSlaveDc slave (.ok ()))) := by
        apply Asks.call rfl
        intro t ht c' t' hserve
        cases hserve
        exact ⟨rfl, ht⟩
      exact hcall.trans (ih _)
    · exact ih m

/-- Reading the clock. What it answers is the time after the next cycle. -/
theorem asks_readDcTime
    (htransport : m'.transport =
      m.transport ++ [.readDcTime (.ok (SimulatedBus.nextDcTime t₀))]) :
    Asks b sine (Clocked t₀) (Like t₀) m m' := by
  apply Asks.call htransport
  intro t ht c' t' hserve
  obtain ⟨⟨result, t₁⟩, hread, heq⟩ := bind_eq_ok.1 hserve
  cases heq
  obtain ⟨dcTime, hsum, heq⟩ := bind_eq_ok.1 hread
  cases heq
  refine ⟨?_, ht.slaves, ht.isOpen⟩
  have hnext : BitVec.ofNat 64 dcTime = SimulatedBus.nextDcTime t₀ := by
    rw [u64Add_ok hsum, ht.dcTime, ht.cycleTimeNs]
    apply BitVec.eq_of_toNat_eq
    rw [SimulatedBus.nextDcTime, BitVec.toNat_add, BitVec.toNat_ofNat, Nat.mod_mod]
  rw [hnext]

theorem asks_configureDc (m : EthercatMaster) :
    Asks b sine (Clocked t₀) (Like t₀) m (m.configureDc (.ok (SimulatedBus.nextDcTime t₀))
      fun config => (t₀.configureSlaveDc config).1).2 := by
  rw [EthercatMaster.configureDc]
  split
  · exact (Asks.refl rfl).mono fun t ht => ht.toLike
  · dsimp only
    refine Asks.trans (asks_readDcTime ?_) (asks_configureDcSlaves _ _)
    rfl

theorem asks_closeTransport (t₀ : SimulatedTransport) (m : EthercatMaster) :
    Asks b sine (Like t₀) (fun t => t.slaves = t₀.slaves) m
      (m.closeTransport t₀.close.1).2 := by
  apply Asks.call rfl
  intro t ht c' t' hserve
  cases hserve
  exact ⟨rfl, ht.slaves⟩

/-- What an exchange of an open transport does. -/
theorem exchange_ok {outputs inputs : List (BitVec 8)} (hopen : t.isOpen = true)
    {x : PlcResult (BitVec 16) × List (BitVec 8) × SimulatedTransport}
    (h : t.exchange b sine outputs inputs = .ok x) :
    ∃ n wkc, t.slaves.foldlM (countPdos b) 0 = .ok wkc ∧ ∀ inputs',
      t.exchange b sine outputs inputs' =
        .ok (.ok wkc, simulateInputs (sine n) outputs inputs', { t with cycleCount := n }) := by
  rw [SimulatedTransport.exchange, hopen] at h
  obtain ⟨n, hn, h⟩ := bind_eq_ok.1 h
  obtain ⟨wkc, hwkc, -⟩ := bind_eq_ok.1 h
  refine ⟨BitVec.ofNat 64 n, wkc, hwkc, fun inputs' => ?_⟩
  rw [SimulatedTransport.exchange, hopen]
  exact bind_eq_ok.2 ⟨n, hn, bind_eq_ok.2 ⟨wkc, hwkc, rfl⟩⟩

theorem exchange_closed (hopen : t.isOpen = false) (outputs inputs : List (BitVec 8)) :
    t.exchange b sine outputs inputs = .ok (.error SimulatedTransport.notOpen, inputs, t) := by
  rw [SimulatedTransport.exchange, hopen]
  rfl

theorem updateDc_transport {answers : ExchangeAnswers} {r : PlcResult Unit × EthercatMaster}
    (h : m.updateDc b answers = .ok r) :
    ∃ clock, r.2.transport = m.transport ++ clock ∧
      (clock = [] ∨ clock = [.readDcTime answers.dcTime]) := by
  rw [EthercatMaster.updateDc] at h
  split at h
  · dsimp only at h
    split at h
    · cases h
      exact ⟨_, rfl, .inr rfl⟩
    · obtain ⟨⟨deviation, dc⟩, -, h⟩ := bind_eq_ok.1 h
      cases h
      exact ⟨_, rfl, .inr rfl⟩
  · cases h
    exact ⟨[], (List.append_nil _).symm, .inl rfl⟩

/-- The calls of an exchange: none, or the exchange itself and at most one reading of the clock. -/
theorem exchange_transport {answers : ExchangeAnswers} {r : PlcResult Unit × EthercatMaster}
    (h : m.exchange b answers = .ok r) :
    (m.exchanging = false ∧ r.2.transport = m.transport) ∨ ∃ clock,
      r.2.transport = m.transport ++ .exchange m.processImage.outputs answers.exchange :: clock ∧
        (clock = [] ∨ clock = [.readDcTime answers.dcTime]) := by
  have hcalls : ∀ {m' : EthercatMaster} {r : PlcResult Unit × EthercatMaster},
      m'.transport = m.transport ++ [.exchange m.processImage.outputs answers.exchange] →
      m'.updateDc b answers = .ok r → ∃ clock,
        r.2.transport = m.transport ++ .exchange m.processImage.outputs answers.exchange :: clock ∧
          (clock = [] ∨ clock = [.readDcTime answers.dcTime]) := by
    intro m' r hm' hr
    obtain ⟨clock, htransport, hclock⟩ := updateDc_transport hr
    refine ⟨clock, ?_, hclock⟩
    rw [htransport, hm', List.append_assoc]
    rfl
  rw [EthercatMaster.exchange] at h
  split at h
  · next hrefused =>
    cases h
    exact .inl ⟨by simpa using hrefused, rfl⟩
  · right
    split at h
    · cases h
      exact ⟨[], rfl, .inl rfl⟩
    · dsimp only at h
      split at h
      · obtain ⟨errors, -, h⟩ := bind_eq_ok.1 h
        split at h
        · cases h
          exact ⟨[], rfl, .inl rfl⟩
        · exact hcalls rfl h
      · exact hcalls rfl h

theorem asks_exchange {s : SimulatedBus} {rttUs : BitVec 32} {elapsed : Duration}
    {r : PlcResult Unit × EthercatMaster}
    (h : s.master.exchange b (s.exchangeAnswers b sine rttUs elapsed) = .ok r) :
    Asks b sine (fun t => t = s.transport) (Like s.transport) s.master r.2 := by
  rcases exchange_transport h with ⟨-, hnone⟩ | ⟨clock, htransport, hclock⟩
  · refine (Asks.refl hnone).mono fun t ht => ?_
    rw [ht]
    exact ⟨rfl, rfl⟩
  · have hexchanged : Asks b sine (fun t => t = s.transport) (Clocked s.transport) s.master
        (s.master.exchanged (s.exchangeAnswers b sine rttUs elapsed)) := by
      apply Asks.call rfl
      rintro t rfl c' t' hserve
      obtain ⟨⟨result, inputs, t₁⟩, hexchange, heq⟩ := bind_eq_ok.1 hserve
      cases heq
      -- the answer that the master has been given is the one of the same exchange
      cases hopen : s.transport.isOpen with
      | false =>
        rw [exchange_closed hopen] at hexchange
        cases hexchange
        rw [SimulatedBus.exchangeAnswers, exchange_closed hopen]
        exact ⟨rfl, ⟨rfl, rfl⟩, rfl, rfl⟩
      | true =>
        obtain ⟨n, wkc, -, hanswer⟩ := exchange_ok hopen hexchange
        rw [hanswer] at hexchange
        cases hexchange
        rw [SimulatedBus.exchangeAnswers, hanswer]
        exact ⟨rfl, ⟨rfl, rfl⟩, rfl, rfl⟩
    rcases hclock with rfl | rfl
    · refine (hexchanged.mono fun t ht => ht.toLike).trans (Asks.refl ?_)
      exact htransport
    · refine hexchanged.trans (asks_readDcTime ?_)
      rw [htransport]
      exact List.append_assoc _ [_] [_] |>.symm

theorem clocked_self {t : SimulatedTransport} (h : t = t₀) : Clocked t₀ t := by
  rw [h]
  exact ⟨⟨rfl, rfl⟩, rfl, rfl⟩

theorem asks_init {s : SimulatedBus} {answers : InitAnswers} {r : PlcResult Unit × EthercatMaster}
    (hanswers : s.answered b sine .init = .init answers) (h : s.master.init b answers = .ok r) :
    Asks b sine (Clocked s.transport) (Like s.transport) s.master r.2 := by
  cases hanswers
  obtain ⟨⟨result, scanned⟩, hscan, h⟩ := bind_eq_ok.1 h
  have hscanned : Asks b sine (Clocked s.transport) (Clocked s.transport) s.master scanned :=
    asks_scanSlaves hscan
  cases result with
  | error e =>
    cases h
    exact hscanned.mono fun t ht => ht.toLike
  | ok count =>
    cases h
    refine hscanned.trans (asks_andThen (asks_advance stable_clocked _ _ _ _ _)
      (fun t ht => ht.toLike) fun m₁ => ?_)
    refine asks_andThen (asks_configureDc m₁) (fun t ht => ht) fun m₂ => ?_
    refine asks_andThen (asks_advance stable_like _ _ _ _ m₂) (fun t ht => ht) fun m₃ => ?_
    exact asks_advance stable_like _ _ _ _ m₃

theorem asks_shutdown {s : SimulatedBus} {answers : ShutdownAnswers}
    (hanswers : s.answered b sine .shutdown = .shutdown answers) :
    Asks b sine (Clocked s.transport) (fun t => t.slaves = s.transport.slaves) s.master
      (s.master.shutdown answers).2 := by
  cases hanswers
  have hdone : ∀ t, Like s.transport t → t.slaves = s.transport.slaves := fun t ht => ht.slaves
  refine asks_andThen (Asks.mono (asks_stepDown stable_clocked _ _ _ _) fun t ht => ht.toLike)
    hdone fun m₁ => ?_
  refine asks_andThen (asks_stepDown stable_like _ _ _ m₁) hdone fun m₂ => ?_
  refine asks_andThen (asks_stepDown stable_like _ _ _ m₂) hdone fun m₃ => ?_
  exact asks_closeTransport s.transport m₃

/-- What an operation leaves alone of the transport. Only a shutdown closes it. -/
def After (t₀ : SimulatedTransport) : BusRequest → SimulatedTransport → Prop
  | .shutdown, t => t.slaves = t₀.slaves
  | _, t => Like t₀ t

/-- Whatever is asked of the master, its calls are answered as the transport answers them. -/
theorem asks_apply {s : SimulatedBus} {request : BusRequest} {m' : EthercatMaster}
    (h : (s.answered b sine request).apply b s.master = .ok m') :
    Asks b sine (fun t => t = s.transport) (After s.transport request) s.master m' := by
  -- only an exchange is answered by more of the transport than its slaves and clock
  have hstart : ∀ {Q : SimulatedTransport → Prop} {m' : EthercatMaster},
      Asks b sine (Clocked s.transport) Q s.master m' →
        Asks b sine (fun t => t = s.transport) Q s.master m' := by
    intro Q m' hasks
    obtain ⟨calls, htransport, hagrees⟩ := hasks
    exact ⟨calls, htransport, fun t ht => hagrees t (clocked_self ht)⟩
  cases request with
  | init =>
    obtain ⟨r, hr, hret⟩ := bind_eq_ok.1 h
    cases hret
    exact hstart (asks_init rfl hr)
  | scanSlaves =>
    obtain ⟨r, hr, hret⟩ := bind_eq_ok.1 h
    cases hret
    exact hstart ((asks_scanSlaves hr).mono fun t ht => ht.toLike)
  | configureSlaves | enterSafeOp | enterOp =>
    cases h
    exact hstart (Asks.mono (asks_advance stable_clocked _ _ _ _ _) fun t ht => ht.toLike)
  | configureDc =>
    cases h
    exact hstart (asks_configureDc _)
  | exchange rttUs elapsed =>
    obtain ⟨r, hr, hret⟩ := bind_eq_ok.1 h
    cases hret
    exact asks_exchange hr
  | sdoRead request =>
    cases h
    apply hstart
    rw [EthercatMaster.sdoRead]
    split
    · exact (Asks.refl rfl).mono fun t ht => ht.toLike
    · apply Asks.call rfl
      intro t ht c' t' hserve
      cases hserve
      exact ⟨rfl, ht.toLike⟩
  | sdoWrite request =>
    cases h
    apply hstart
    rw [EthercatMaster.sdoWrite]
    split
    · exact (Asks.refl rfl).mono fun t ht => ht.toLike
    · split
      · exact (Asks.refl rfl).mono fun t ht => ht.toLike
      · apply Asks.call rfl
        intro t ht c' t' hserve
        cases hserve
        exact ⟨rfl, ht.toLike⟩
  | shutdown =>
    cases h
    exact hstart (asks_shutdown rfl)

/-- The transport takes the calls of an operation on its way to the state after it. -/
theorem step_asks {s s' : SimulatedBus} {op : BusOperation} (h : s.step b sine op = .ok s')
    (hasks : Asks b sine (fun t => t = s.transport) Q s.master s'.master) :
    (∃ calls, s'.master.transport = s.master.transport ++ calls ∧
      Served b sine s.transport calls s'.transport) ∧ Q s'.transport := by
  obtain ⟨m', hdrive, h⟩ := bind_eq_ok.1 h
  obtain ⟨t', hreplay, h⟩ := bind_eq_ok.1 h
  cases h
  obtain ⟨calls, htransport, hagrees⟩ := hasks
  rw [htransport, List.drop_left] at hreplay
  obtain ⟨hserved, hQ⟩ := (hagrees _ rfl).served hreplay
  exact ⟨⟨calls, htransport, hserved⟩, hQ⟩

theorem step_drive {s s' : SimulatedBus} {op : BusOperation} (h : s.step b sine op = .ok s') :
    s.drive b sine op = .ok s'.master := by
  obtain ⟨m', hdrive, h⟩ := bind_eq_ok.1 h
  obtain ⟨t', -, h⟩ := bind_eq_ok.1 h
  cases h
  exact hdrive

/-- What an operation leaves alone of the transport. -/
def Kept (t₀ : SimulatedTransport) : BusOperation → SimulatedTransport → Prop
  | .ask request, t => After t₀ request t
  | .setOutputs _, t => t = t₀

/-- One operation appends calls that the transport has answered on its way. -/
theorem answered_step {s s' : SimulatedBus} {op : BusOperation} (h : s.step b sine op = .ok s') :
    (∃ calls, s'.master.transport = s.master.transport ++ calls ∧
      Served b sine s.transport calls s'.transport) ∧ Kept s.transport op s'.transport := by
  have hdrive := step_drive h
  apply step_asks h
  cases op with
  | ask request => exact asks_apply hdrive
  | setOutputs outputs =>
    obtain ⟨image, -, hret⟩ := bind_eq_ok.1 hdrive
    have hmaster : s'.master = { s.master with processImage := image } :=
      (Except.ok.inj hret).symm
    rw [hmaster]
    exact .refl rfl

end Answers

end VirtualPlc.Fieldbus

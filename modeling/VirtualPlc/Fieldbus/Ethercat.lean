import VirtualPlc.Fieldbus.DcSync
import VirtualPlc.Fieldbus.SlaveConfig
import VirtualPlc.Runtime.IoImage

/-!
# The EtherCAT master

The master brings the slaves from INIT to OP, exchanges process data and supervises the working
counter. The transport is outside: each operation takes its answers, and the master keeps the calls
it has made. An operation answers its result with the master after it; a panic has neither.
-/

set_option autoImplicit false

namespace VirtualPlc.Fieldbus

open VirtualPlc.Runtime VirtualPlc.Word

/-- States of the master. -/
inductive MasterState where
  | offline
  | init
  | preOp
  | safeOp
  | op
  | fault
deriving DecidableEq, Repr

/-- Name of a state in messages. -/
def MasterState.display : MasterState → String
  | .offline => "OFFLINE"
  | .init => "INIT"
  | .preOp => "PRE_OP"
  | .safeOp => "SAFE_OP"
  | .op => "OP"
  | .fault => "FAULT"

/-- Statistics of the frames. -/
structure FrameStats where
  framesSent : BitVec 64
  framesReceived : BitVec 64
  wkcErrors : BitVec 64
  timeouts : BitVec 64
  lastRttUs : BitVec 32
  minRttUs : BitVec 32
  maxRttUs : BitVec 32
deriving DecidableEq, Repr

namespace FrameStats

def zero : FrameStats := ⟨0, 0, 0, 0, 0, 0, 0⟩

/-- Records a good exchange. -/
def recordSuccess (stats : FrameStats) (rttUs : BitVec 32) : FrameStats :=
  { stats with
    framesSent := stats.framesSent + 1
    framesReceived := stats.framesReceived + 1
    lastRttUs := rttUs
    minRttUs := if stats.minRttUs = 0 ∨ rttUs < stats.minRttUs then rttUs else stats.minRttUs
    maxRttUs := if stats.maxRttUs < rttUs then rttUs else stats.maxRttUs }

/-- Records a mismatch of the working counter. -/
def recordWkcError (stats : FrameStats) : FrameStats :=
  { stats with framesSent := stats.framesSent + 1, wkcErrors := stats.wkcErrors + 1 }

end FrameStats

/-- Buffers of the process data, with the working counters. -/
structure ProcessImage where
  inputs : List (BitVec 8)
  outputs : List (BitVec 8)
  expectedWkc : BitVec 16
  lastWkc : BitVec 16
deriving DecidableEq, Repr

/-- An image of the given sizes. -/
def ProcessImage.new (inputSize outputSize : Nat) : ProcessImage :=
  ⟨List.replicate inputSize 0, List.replicate outputSize 0, 0, 0⟩

/-- Request for an object of a slave. -/
structure SdoRequest where
  slave : BitVec 16
  index : BitVec 16
  subindex : BitVec 8
  writeData : Option (List (BitVec 8))
  completeAccess : Bool
deriving DecidableEq, Repr

/-- A call to the transport, with its answer. -/
inductive TransportCall where
  | scanSlaves (result : PlcResult (List SlaveConfig))
  | setState (state : SlaveState) (result : PlcResult Unit)
  | configureSlaveDc (config : DcSlaveConfig) (result : PlcResult Unit)
  | readDcTime (result : PlcResult (BitVec 64))
  | exchange (outputs : List (BitVec 8)) (result : PlcResult (BitVec 16))
  | sdoRead (request : SdoRequest) (result : PlcResult (List (BitVec 8)))
  | sdoWrite (request : SdoRequest) (result : PlcResult Unit)
  | close (result : PlcResult Unit)
deriving DecidableEq, Repr

/-- Configuration of the master. -/
structure EthercatConfig where
  dcEnabled : Bool
  dcSync0Cycle : Duration
  wkcErrorThreshold : BitVec 32
deriving DecidableEq, Repr

/-- The EtherCAT master. -/
structure EthercatMaster where
  config : EthercatConfig
  state : MasterState
  network : NetworkConfig
  processImage : ProcessImage
  dc : DcController
  stats : FrameStats
  transport : List TransportCall
  cycleCount : BitVec 64
  consecutiveWkcErrors : BitVec 32

/-- Answers to an initialisation. -/
structure InitAnswers where
  scan : PlcResult (List SlaveConfig)
  preOp : PlcResult Unit
  dcTime : PlcResult (BitVec 64)
  configureDc : DcSlaveConfig → PlcResult Unit
  safeOp : PlcResult Unit
  op : PlcResult Unit

/-- Answers to an exchange: the working counter, the bytes the input buffer is left with, the time
it takes, and what the distributed clocks are updated with. -/
structure ExchangeAnswers where
  exchange : PlcResult (BitVec 16)
  received : Nat → BitVec 8
  rttUs : BitVec 32
  dcTime : PlcResult (BitVec 64)
  elapsed : Duration

/-- Answers to a shutdown. -/
structure ShutdownAnswers where
  safeOp : PlcResult Unit
  preOp : PlcResult Unit
  init : PlcResult Unit
  close : PlcResult Unit

/-- Counts for data of a size, if there are any. -/
def countSize (b : Build) (wkc : BitVec 16) (size : Nat) (weight : BitVec 16) :
    Except Failure (BitVec 16) :=
  if 0 < size then u16Add b wkc weight else .ok wkc

/-- Counts 1 for a slave with inputs and 2 for one with outputs. -/
def addWkc (b : Build) (wkc : BitVec 16) (slave : SlaveConfig) : Except Failure (BitVec 16) := do
  let wkc ← countSize b wkc slave.inputSize 1
  countSize b wkc slave.outputSize 2

/-- The working counter of a complete exchange. -/
def calculateWkc (b : Build) (slaves : List SlaveConfig) : Except Failure (BitVec 16) :=
  slaves.foldlM (addWkc b) 0

namespace EthercatMaster

def withTransport (config : EthercatConfig) : EthercatMaster where
  config := config
  state := .offline
  network := .new
  processImage := .new 0 0
  dc := .new config.dcSync0Cycle
  stats := .zero
  transport := []
  cycleCount := 0
  consecutiveWkcErrors := 0

/-- Records a call to the transport. -/
def call (m : EthercatMaster) (c : TransportCall) : EthercatMaster :=
  { m with transport := m.transport ++ [c] }

/-- Goes on if there is no error. -/
def andThen (step : PlcResult Unit × EthercatMaster)
    (f : EthercatMaster → PlcResult Unit × EthercatMaster) : PlcResult Unit × EthercatMaster :=
  match step with
  | (.error e, m) => (.error e, m)
  | (.ok (), m) => f m

/-! ## Start -/

/-- Takes over a slave that has been found. -/
def addScanned (m : EthercatMaster) (slave : SlaveConfig) : EthercatMaster :=
  { m with
    dc :=
      if slave.dcSupported && m.config.dcEnabled then
        m.dc.addSlave ((DcSlaveConfig.new slave.position).withSync0
          (BitVec.ofNat 64 m.config.dcSync0Cycle.ns))
      else m.dc
    network := m.network.addSlave slave }

/-- Forgets what an earlier scan has found. -/
def beginScan (m : EthercatMaster) : EthercatMaster :=
  { m with state := .init, network := m.network.clear, dc := m.dc.clear }

/-- Scans for slaves; `answer` is what the transport finds. -/
def scanSlaves (b : Build) (m : EthercatMaster) (answer : PlcResult (List SlaveConfig)) :
    Except Failure (PlcResult Nat × EthercatMaster) :=
  let m := m.beginScan.call (.scanSlaves answer)
  match answer with
  | .error e => .ok (.error e, m)
  | .ok slaves => do
    let m := slaves.foldl addScanned m
    let expectedWkc ← calculateWkc b m.network.slaves
    return (.ok slaves.length, { m with
      processImage := { ProcessImage.new m.network.totalInputSize m.network.totalOutputSize with
        expectedWkc := expectedWkc } })

/-- Commands the slaves from one state of the master to the next. -/
def advance (source : MasterState) (action : String) (command : SlaveState) (target : MasterState)
    (m : EthercatMaster) (answer : PlcResult Unit) : PlcResult Unit × EthercatMaster :=
  if m.state ≠ source then
    (.error (.fieldbusError s!"Cannot {action} from state {m.state.display}"), m)
  else
    match answer with
    | .error e => (.error e, m.call (.setState command answer))
    | .ok () =>
      (.ok (), { m.call (.setState command answer) with
        network := m.network.setStates command
        state := target })

/-- Brings all slaves to PRE_OP. -/
def configureSlaves : EthercatMaster → PlcResult Unit → PlcResult Unit × EthercatMaster :=
  advance .init "configure" .preOp .preOp

/-- Brings all slaves to SAFE_OP. -/
def enterSafeOp : EthercatMaster → PlcResult Unit → PlcResult Unit × EthercatMaster :=
  advance .preOp "enter SAFE_OP" .safeOp .safeOp

/-- Brings all slaves to OP. -/
def enterOp : EthercatMaster → PlcResult Unit → PlcResult Unit × EthercatMaster :=
  advance .safeOp "enter OP" .op .op

/-- Configures the clocks of slaves one by one. -/
def configureDcSlaves (answer : DcSlaveConfig → PlcResult Unit) (m : EthercatMaster) :
    List DcSlaveConfig → PlcResult Unit × EthercatMaster
  | [] => (.ok (), m)
  | slave :: rest =>
    if slave.dcSupported then
      match answer slave with
      | .error e => (.error e, m.call (.configureSlaveDc slave (answer slave)))
      | .ok () =>
        configureDcSlaves answer (m.call (.configureSlaveDc slave (answer slave))) rest
    else configureDcSlaves answer m rest

/-- Configures the distributed clocks, where they are enabled and a slave has one. -/
def configureDc (m : EthercatMaster) (dcTime : PlcResult (BitVec 64))
    (answer : DcSlaveConfig → PlcResult Unit) : PlcResult Unit × EthercatMaster :=
  if !m.config.dcEnabled || m.dc.referenceClock.isNone then (.ok (), m)
  else
    let m := m.call (.readDcTime dcTime)
    match dcTime with
    | .error e => (.error e, m)
    | .ok initialTime =>
      let m := { m with dc := m.dc.initializeAt initialTime }
      configureDcSlaves answer m m.dc.slaves

/-- Brings the network up. -/
def init (b : Build) (m : EthercatMaster) (answers : InitAnswers) :
    Except Failure (PlcResult Unit × EthercatMaster) := do
  let (result, m) ← m.scanSlaves b answers.scan
  match result with
  | .error e => return (.error e, m)
  | .ok _ =>
    return andThen (m.configureSlaves answers.preOp) fun m =>
      andThen (m.configureDc answers.dcTime answers.configureDc) fun m =>
        andThen (m.enterSafeOp answers.safeOp) fun m => m.enterOp answers.op

/-! ## Exchange -/

/-- Process data are exchanged in these states. -/
def exchanging (m : EthercatMaster) : Bool := m.state = .op || m.state = .safeOp

/-- The master after the transport's exchange. -/
def exchanged (m : EthercatMaster) (answers : ExchangeAnswers) : EthercatMaster :=
  { m.call (.exchange m.processImage.outputs answers.exchange) with
    processImage := { m.processImage with
      inputs := (List.range m.processImage.inputs.length).map answers.received } }

/-- Updates the distributed clocks, where they are active. A failed reading is passed over. -/
def updateDc (b : Build) (m : EthercatMaster) (answers : ExchangeAnswers) :
    Except Failure (PlcResult Unit × EthercatMaster) :=
  if m.dc.active then
    let m := m.call (.readDcTime answers.dcTime)
    match answers.dcTime with
    | .error _ => .ok (.ok (), m)
    | .ok dcTime => do
      let (_, dc) ← m.dc.update b answers.elapsed dcTime
      return (.ok (), { m with dc := dc })
  else .ok (.ok (), m)

/-- A completed exchange with a working counter. -/
def countCycle (m : EthercatMaster) (wkc : BitVec 16) : EthercatMaster :=
  { m with
    processImage := { m.processImage with lastWkc := wkc }
    cycleCount := m.cycleCount + 1 }

/-- A mismatch has been counted. -/
def mismatched (m : EthercatMaster) (errors : BitVec 32) : EthercatMaster :=
  { m with stats := m.stats.recordWkcError, consecutiveWkcErrors := errors }

/-- The working counter was right. -/
def matched (m : EthercatMaster) (rttUs : BitVec 32) : EthercatMaster :=
  { m with stats := m.stats.recordSuccess rttUs, consecutiveWkcErrors := 0 }

/-- The threshold is set and reached. -/
def thresholdReached (m : EthercatMaster) (errors : BitVec 32) : Bool :=
  0 < m.config.wkcErrorThreshold && m.config.wkcErrorThreshold ≤ errors

/-- One exchange of process data. -/
def exchange (b : Build) (m : EthercatMaster) (answers : ExchangeAnswers) :
    Except Failure (PlcResult Unit × EthercatMaster) :=
  if !m.exchanging then
    .ok (.error (.fieldbusError s!"Cannot exchange in state {m.state.display}"), m)
  else
    match answers.exchange with
    | .error e => .ok (.error e, m.exchanged answers)
    | .ok wkc =>
      let m := (m.exchanged answers).countCycle wkc
      if wkc ≠ m.processImage.expectedWkc then do
        let errors ← u32Add b m.consecutiveWkcErrors 1
        let m := m.mismatched errors
        if m.thresholdReached errors then
          return (.error (.wkcThresholdExceeded errors m.config.wkcErrorThreshold),
            { m with state := .fault })
        else m.updateDc b answers
      else (m.matched answers.rttUs).updateDc b answers

/-! ## Objects and shutdown -/

/-- Reads an object of a slave. -/
def sdoRead (m : EthercatMaster) (request : SdoRequest) (answer : PlcResult (List (BitVec 8))) :
    PlcResult (List (BitVec 8)) × EthercatMaster :=
  if m.state = .offline then (.error (.fieldbusError "Master is offline"), m)
  else (answer, m.call (.sdoRead request answer))

/-- Writes an object of a slave. -/
def sdoWrite (m : EthercatMaster) (request : SdoRequest) (answer : PlcResult Unit) :
    PlcResult Unit × EthercatMaster :=
  if m.state = .offline then (.error (.fieldbusError "Master is offline"), m)
  else if request.writeData.isNone then (.error (.fieldbusError "No write data provided"), m)
  else (answer, m.call (.sdoWrite request answer))

/-- One step of the shutdown, where the master is in its state. -/
def stepDown (source : MasterState) (command : SlaveState) (target : MasterState)
    (m : EthercatMaster) (answer : PlcResult Unit) : PlcResult Unit × EthercatMaster :=
  if m.state = source then
    match answer with
    | .error e => (.error e, m.call (.setState command answer))
    | .ok () => (.ok (), { m.call (.setState command answer) with state := target })
  else (.ok (), m)

/-- Closes the transport. -/
def closeTransport (m : EthercatMaster) (answer : PlcResult Unit) :
    PlcResult Unit × EthercatMaster :=
  match answer with
  | .error e => (.error e, m.call (.close answer))
  | .ok () => (.ok (), { m.call (.close answer) with state := .offline })

/-- Shuts the master down, through the states in reverse. -/
def shutdown (m : EthercatMaster) (answers : ShutdownAnswers) : PlcResult Unit × EthercatMaster :=
  andThen (m.stepDown .op .safeOp .safeOp answers.safeOp) fun m =>
    andThen (m.stepDown .safeOp .preOp .preOp answers.preOp) fun m =>
      andThen (m.stepDown .preOp .init .init answers.init) fun m => m.closeTransport answers.close

end EthercatMaster

end VirtualPlc.Fieldbus

import VirtualPlc.Host.ProcessMemory
import VirtualPlc.Wasm.Syntax

/-!
# Host functions and executions of guest code

The host state, the functions a module imports, and what guest code can do while it runs. The code
of a module is untrusted: an execution is an arbitrary list of events (stores to the memory of the
instance, growth of that memory, host calls, ticks of the epoch) with an arbitrary outcome. From the
deadline on the engine interrupts it at its next event.
-/

set_option autoImplicit false

namespace VirtualPlc.Host

open VirtualPlc.Runtime VirtualPlc.Word VirtualPlc.Wasm

/-- Capacity of the log buffer. -/
def maxLogBufferSize : Nat := 1000

/-- Default limit of host calls. -/
def defaultMaxHostCallsPerCycle : BitVec 32 := 10000

/-- Host state. Memories are handles into the store. -/
structure HostState where
  memory : Option Nat
  cycleTimeNs : BitVec 64
  cycleCount : BitVec 64
  firstCycle : Bool
  logBuffer : List String
  hostCallCount : BitVec 32
  maxHostCallsPerCycle : BitVec 32
  rateLimitHit : Bool
deriving DecidableEq, Repr

namespace HostState

/-- A host state without a memory. -/
def new (cycleTimeNs : BitVec 64) : HostState where
  memory := none
  cycleTimeNs := cycleTimeNs
  cycleCount := 0
  firstCycle := true
  logBuffer := []
  hostCallCount := 0
  maxHostCallsPerCycle := defaultMaxHostCallsPerCycle
  rateLimitHit := false

/-- Sets the memory after instantiation. -/
def setMemory (data : HostState) (memory : Nat) : HostState := { data with memory := some memory }

/-- Counts a cycle and resets the rate limit. -/
def advanceCycle (data : HostState) : HostState :=
  { data with
    cycleCount := data.cycleCount + 1
    firstCycle := false
    hostCallCount := 0
    rateLimitHit := false }

/-- Adds a log message; a full buffer loses its oldest one. -/
def pushLog (data : HostState) (message : String) : HostState :=
  let buffer :=
    if maxLogBufferSize ≤ data.logBuffer.length then data.logBuffer.drop 1 else data.logBuffer
  { data with logBuffer := buffer ++ [message] }

/-- Whether a host call is let through. One that is counts. -/
def checkRateLimit (data : HostState) : Bool × HostState :=
  if data.maxHostCallsPerCycle ≤ data.hostCallCount then (false, { data with rateLimitHit := true })
  else (true, { data with hostCallCount := data.hostCallCount + 1 })

end HostState

/-- Imported functions with their arguments. -/
inductive HostCall where
  | readDi (bit : BitVec 32)
  | writeDo (bit value : BitVec 32)
  | readAi (channel : BitVec 32)
  | writeAo (channel value : BitVec 32)
  | getCycleTime
  | getCycleCount
  | isFirstCycle
  | logMessage (ptr len : BitVec 32)
deriving DecidableEq, Repr

/-- The results of a call that does nothing. -/
def HostCall.zero : HostCall → List Value
  | .readDi _ | .readAi _ | .getCycleTime | .isFirstCycle => [.i32 0]
  | .getCycleCount => [.i64 0]
  | .writeDo _ _ | .writeAo _ _ | .logMessage _ _ => []

/-- The epoch of the engine, and the counter that the host keeps beside it. -/
structure Clock where
  epoch : Nat
  counter : BitVec 64
deriving DecidableEq, Repr

/-- A tick increments both. -/
def Clock.tick (clock : Clock) : Clock := ⟨clock.epoch + 1, clock.counter + 1⟩

/-- The exported functions that the host calls. -/
inductive Function where
  | init
  | step
  | fault
deriving DecidableEq, Repr

/-- Which code runs: the start function of an instantiation or an exported function. -/
inductive Code where
  | start
  | exported (function : Function)
deriving DecidableEq, Repr

/-- What is remembered of an execution: the epoch counter, the ticks left until the deadline and the
host calls counted when it started, and for each of its host calls whether it was let through. -/
structure Execution where
  code : Code
  counter : BitVec 64
  ticksLeft : Nat
  counted : BitVec 32
  allowed : List Bool
deriving DecidableEq, Repr

/-- An execution, or the end of a successful step. -/
inductive Entry where
  | execution (e : Execution)
  | advanced
deriving DecidableEq, Repr

/-- The store: all memories, the memory that each instance exports, the host state, the fuel when it
is enabled, the clock and the deadline. No function reads `log`. -/
structure Store where
  memories : List Memory
  instances : List (Option Nat)
  data : HostState
  fuel : Option (BitVec 64)
  clock : Clock
  deadline : Nat
  log : List Entry

/-- The traps that the host tells apart, and what interrupts code at the deadline. -/
inductive Trap where
  | outOfFuel
  | interrupt
  | other
deriving DecidableEq, Repr

/-- Why guest code did not return, and what the engine says of it. -/
structure GuestError where
  trap : Trap
  message : String
deriving DecidableEq, Repr

/-- What happens while guest code runs. -/
inductive Event where
  | store (offset : Nat) (value : BitVec 8)
  | grow (size : Nat)
  | host (call : HostCall)
  | tick

/-- The behaviour of guest code in one execution: its events, its outcome when nothing interrupts
it, and what the engine says when something does. -/
structure Behaviour where
  events : List Event
  outcome : Except GuestError Unit
  interruptMessage : String

namespace Behaviour

/-- Code with these events that returns. -/
def returning (events : List Event) : Behaviour := ⟨events, .ok (), "interrupt"⟩

/-- Code with these events that traps. -/
def trapping (events : List Event) : Behaviour :=
  ⟨events, .error ⟨.other, "unreachable"⟩, "interrupt"⟩

end Behaviour

namespace Store

/-- Changes one memory. -/
def modifyMemory (s : Store) (handle : Nat) (f : Memory → Memory) : Store :=
  { s with memories := s.memories.modify handle f }

/-- The memory of a handle, if there is one. -/
def memoryAt (s : Store) (handle : Option Nat) : Option Memory := handle.bind (s.memories[·]?)

/-- The memory a host function works on: the one the caller exports, else the stored one. -/
def getMemory (s : Store) (exported : Option Nat) : Option Nat :=
  match exported with
  | some handle => some handle
  | none => s.data.memory

/-- `value.clamp(i16::MIN, i16::MAX) as i16`. -/
def clampI16 (value : BitVec 32) : BitVec 16 :=
  BitVec.ofInt 16 (max (-32768) (min 32767 value.toInt))

/-- The bytes of a log message as text. -/
def utf8At (m : Memory) (start len : Nat) : Option String :=
  String.fromUTF8? ⟨((List.range len).map fun i => UInt8.ofBitVec (m.byte (start + i))).toArray⟩

/-- A host call that is let through. -/
def allowedCall (s : Store) (exported : Option Nat) (call : HostCall) : List Value × Store :=
  let handle := s.getMemory exported
  match call with
  | .readDi bit =>
    match s.memoryAt handle with
    | some m => ([.i32 (if readDiFromMemory m bit then 1 else 0)], s)
    | none => (call.zero, s)
  | .writeDo bit value =>
    match handle with
    | some handle => (call.zero, s.modifyMemory handle fun m => writeDoToMemory m bit (value ≠ 0))
    | none => (call.zero, s)
  | .readAi channel =>
    match s.memoryAt handle with
    | some m => ([.i32 ((readAiFromMemory m channel).signExtend 32)], s)
    | none => (call.zero, s)
  | .writeAo channel value =>
    match handle with
    | some handle =>
      (call.zero, s.modifyMemory handle fun m => writeAoToMemory m channel (clampI16 value))
    | none => (call.zero, s)
  | .getCycleTime => ([.i32 (cappedCycleTime s.data.cycleTimeNs)], s)
  | .getCycleCount => ([.i64 s.data.cycleCount], s)
  | .isFirstCycle => ([.i32 (if s.data.firstCycle then 1 else 0)], s)
  | .logMessage ptr len =>
    if ptr.toInt < 0 ∨ len.toInt < 0 then (call.zero, s)
    else
      match s.memoryAt handle with
      | some m =>
        if ptr.toNat + len.toNat ≤ m.size then
          match utf8At m ptr.toNat len.toNat with
          | some message => (call.zero, { s with data := s.data.pushLog message })
          | none => (call.zero, s)
        else (call.zero, s)
      | none => (call.zero, s)

/-- A host call: nothing happens when the rate limit is exceeded. -/
def hostCall (s : Store) (exported : Option Nat) (call : HostCall) : List Value × Store :=
  match s.data.checkRateLimit with
  | (false, data) => (call.zero, { s with data := data })
  | (true, data) => { s with data := data }.allowedCall exported call

/-- An event of code whose instance exports the memory `exported`. Stores to memories that are not
exported are not seen by the host. -/
def event (s : Store) (exported : Option Nat) : Event → Store
  | .store offset value =>
    match exported with
    | some handle => s.modifyMemory handle fun m => storeIfFits m offset 1 value.toNat
    | none => s
  | .grow size =>
    match exported with
    | some handle => s.modifyMemory handle fun m =>
        -- new pages are zero
        if m.size ≤ size then ⟨size, fun i => if i < m.size then m.byte i else 0⟩ else m
    | none => s
  | .host call => (s.hostCall exported call).2
  | .tick => { s with clock := s.clock.tick }

/-- Whether the host call of an event is let through. -/
def allowed (s : Store) : Event → List Bool
  | .host _ => [s.data.checkRateLimit.1]
  | _ => []

/-- Runs events until the deadline: whether they were interrupted, which host calls were let
through, and the store after them. -/
def runEvents (s : Store) (exported : Option Nat) : List Event → Bool × List Bool × Store
  | [] => (false, [], s)
  | .tick :: rest => (s.event exported .tick).runEvents exported rest
  | e :: rest =>
    if s.deadline ≤ s.clock.epoch then (true, [], s)
    else
      match (s.event exported e).runEvents exported rest with
      | (interrupted, flags, s') => (interrupted, s.allowed e ++ flags, s')

/-- Runs guest code of an instance. -/
def execute (s : Store) (code : Code) (owner : Nat) (x : Behaviour) :
    Except GuestError Unit × Store :=
  match s.runEvents (s.instances[owner]?).join x.events with
  | (interrupted, flags, s') =>
    (if interrupted then .error ⟨.interrupt, x.interruptMessage⟩ else x.outcome,
      { s' with log := s'.log ++ [.execution ⟨code, s.clock.counter,
          s.deadline - s.clock.epoch, s.data.hostCallCount, flags⟩] })

/-- The deadline, in ticks beyond the current epoch. -/
def setEpochDeadline (s : Store) (ticks : BitVec 64) : Store :=
  { s with deadline := s.clock.epoch + ticks.toNat }

/-- Grants fuel when it is enabled. -/
def setFuel (s : Store) (fuel : BitVec 64) : Store := { s with fuel := s.fuel.map fun _ => fuel }

end Store

end VirtualPlc.Host

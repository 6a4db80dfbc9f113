import Mathlib.Data.BitVec
import Mathlib.Tactic.Common

/-!
# Runtime states

The lifecycle of the runtime (BOOT, INIT, PRE_OP, RUN, FAULT, SAFE_STOP), its state machine, the
errors of PLC operations and the fault policy of the configuration.
-/

set_option autoImplicit false

namespace VirtualPlc.Runtime

/-- Errors of PLC operations. -/
inductive PlcError where
  | config (message : String)
  | fault (message : String)
  | watchdogTimeout (message : String)
  | cycleOverrun (expectedNs actualNs : BitVec 64)
  | fieldbusError (message : String)
  | wkcThresholdExceeded (consecutive threshold : BitVec 32)
  | wasmTrap (message : String)
  | ioError (message : String)
  | invalidStateTransition (source target : String)
deriving DecidableEq, Repr

/-- Text of an error. -/
def PlcError.display : PlcError → String
  | .config message => s!"configuration error: {message}"
  | .fault message => s!"runtime fault: {message}"
  | .watchdogTimeout message => s!"watchdog timeout: {message}"
  | .cycleOverrun expectedNs actualNs =>
    s!"cycle overrun: expected {expectedNs.toNat}ns, actual {actualNs.toNat}ns"
  | .fieldbusError message => s!"fieldbus error: {message}"
  | .wkcThresholdExceeded consecutive threshold =>
    s!"WKC threshold exceeded: {consecutive.toNat} consecutive errors " ++
      s!"(threshold: {threshold.toNat})"
  | .wasmTrap message => s!"wasm trap: {message}"
  | .ioError message => s!"I/O error: {message}"
  | .invalidStateTransition source target =>
    s!"invalid state transition from {source} to {target}"

/-- Result of a PLC operation. -/
abbrev PlcResult (α : Type) := Except PlcError α

/-- Runtime states of the lifecycle. -/
inductive RuntimeState where
  | boot
  | init
  | preOp
  | run
  | fault
  | safeStop
deriving DecidableEq, Repr

namespace RuntimeState

/-- Name of a state in messages. -/
def display : RuntimeState → String
  | .boot => "BOOT"
  | .init => "INIT"
  | .preOp => "PRE_OP"
  | .run => "RUN"
  | .fault => "FAULT"
  | .safeStop => "SAFE_STOP"

/-- Valid transitions. -/
def canTransitionTo : RuntimeState → RuntimeState → Bool
  -- normal progression
  | .boot, .init | .init, .preOp | .preOp, .run => true
  | .boot, .fault | .init, .fault | .preOp, .fault | .run, .fault => true
  | .fault, .safeStop | .run, .safeStop => true
  -- recovery, restart and direct stop
  | .fault, .init | .safeStop, .boot | .preOp, .safeStop => true
  | _, _ => false

end RuntimeState

/-- State machine with its transition history. -/
structure StateMachine where
  current : RuntimeState
  previous : Option RuntimeState
  transitionCount : BitVec 64
deriving DecidableEq, Repr

namespace StateMachine

/-- A new state machine starts in BOOT. -/
def new : StateMachine := ⟨.boot, none, 0⟩

/-- Enters a state and records the transition. -/
def enter (sm : StateMachine) (target : RuntimeState) : StateMachine :=
  ⟨target, some sm.current, sm.transitionCount + 1⟩

/-- Attempts a transition. -/
def transition (sm : StateMachine) (target : RuntimeState) : PlcResult StateMachine :=
  if sm.current.canTransitionTo target then .ok (sm.enter target)
  else .error (.invalidStateTransition sm.current.display target.display)

/-- Enters FAULT where the state allows it. -/
def enterFault (sm : StateMachine) : StateMachine :=
  if sm.current.canTransitionTo .fault then sm.enter .fault else sm

@[simp] theorem enter_current (sm : StateMachine) (target : RuntimeState) :
    (sm.enter target).current = target := rfl

end StateMachine

/-- What to do about a cycle that overruns by more than the tolerance. -/
inductive OverrunPolicy where
  | fault
  | warn
  | ignore
deriving DecidableEq, Repr

/-- Outputs in safe or fault state. -/
inductive SafeOutputPolicy where
  | allOff
  | holdLast
  | userDefined (digital : List (BitVec 32)) (analog : List (BitVec 16))
deriving DecidableEq, Repr

/-- Handling of fieldbus failures. A limit of zero never faults. -/
structure FieldbusFailurePolicy where
  maxConsecutiveFailures : BitVec 32
  recoveryGraceCycles : BitVec 32
deriving DecidableEq, Repr

/-- Fault policy of the scheduler. -/
structure FaultPolicyConfig where
  onOverrun : OverrunPolicy
  safeOutputs : SafeOutputPolicy
  fieldbusFailure : FieldbusFailurePolicy
deriving DecidableEq, Repr

end VirtualPlc.Runtime

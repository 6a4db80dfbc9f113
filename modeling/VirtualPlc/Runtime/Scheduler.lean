import VirtualPlc.Runtime.IoImage

/-!
# The cyclic scheduler

One scan cycle reads the inputs, steps the logic and writes the outputs; a fault or a stop writes
the safe outputs. The logic engine and the clock are outside: each operation takes their answers,
and the scheduler keeps the calls it has made to the engine. `Scheduler.runCycle_cases` says what a
cycle can do; the facts about cycles follow from it.
-/

set_option autoImplicit false

namespace VirtualPlc.Runtime

/-- A call to the logic engine, with the answers the scheduler looks at. -/
inductive EngineCall where
  | init (result : PlcResult Unit)
  | step (inputs : ProcessData) (result : PlcResult ProcessData)
  | fault
deriving DecidableEq, Repr

/-- The software watchdog: whether its monitor thread runs, and the flag this thread sets. -/
structure Watchdog where
  running : Bool
  triggered : Bool
deriving DecidableEq, Repr

namespace Watchdog

def new : Watchdog := ⟨false, false⟩

/-- Starts the monitor thread; `spawn` is the answer of the operating system. -/
def start (wd : Watchdog) (spawn : Except String Unit) : PlcResult Unit × Watchdog :=
  if wd.running then (.error (.config "Watchdog already running"), wd)
  else
    match spawn with
    | .ok () => (.ok (), ⟨true, false⟩)
    | .error e => (.error (.config s!"Failed to spawn watchdog thread: {e}"), ⟨false, false⟩)

/-- Asks the monitor thread to end and waits for it. -/
def stop (wd : Watchdog) : Watchdog := if wd.running then { wd with running := false } else wd

end Watchdog

/-- Configuration of the scheduler; times are in nanoseconds. -/
structure RuntimeConfig where
  cycleTime : Nat
  maxOverrun : Nat
  faultPolicy : FaultPolicyConfig
deriving DecidableEq, Repr

/-- The cyclic scheduler. -/
structure Scheduler where
  io : IoImage
  engine : List EngineCall
  state : StateMachine
  cyclePeriod : Nat
  maxOverrun : Nat
  cycleCount : BitVec 64
  watchdog : Option Watchdog
  faultPolicy : FaultPolicyConfig
  lastOutputs : ProcessData
deriving DecidableEq, Repr

/-- What a cycle finds outside the scheduler: whether the watchdog's monitor has seen a timeout,
what the engine's `step` answers, and how long the cycle takes. -/
structure CycleEvents where
  timedOut : Bool
  step : ProcessData → PlcResult ProcessData
  executionTime : Nat

/-- Result of one cycle. -/
structure CycleResult where
  executionTime : Nat
  overrun : Bool
  cycleCount : BitVec 64
deriving DecidableEq, Repr

/-- Copies values up to the array bound; the rest is zero. -/
def copyUpTo {w : Nat} (n : Nat) (values : List (BitVec w)) : Vector (BitVec w) n :=
  Vector.ofFn fun i => values.getD i 0

/-- The process data whose outputs a policy writes. -/
def SafeOutputPolicy.outputs (policy : SafeOutputPolicy) (last : ProcessData) : ProcessData :=
  match policy with
  | .allOff => .zero
  | .holdLast => last
  | .userDefined digital analog =>
    { ProcessData.zero with
      digitalOutputs := copyUpTo 1 digital
      analogOutputs := copyUpTo 16 analog }

namespace Scheduler

def new (config : RuntimeConfig) : Scheduler where
  io := .new
  engine := []
  state := .new
  cyclePeriod := config.cycleTime
  maxOverrun := config.maxOverrun
  cycleCount := 0
  watchdog := none
  faultPolicy := config.faultPolicy
  lastOutputs := .zero

/-- Sets outputs to safe values. -/
def setSafeOutputs (s : Scheduler) : Scheduler :=
  let values := s.faultPolicy.safeOutputs.outputs s.lastOutputs
  { s with io := s.io.writeOutputs fun data => data.withOutputs values }

/-- Enters the fault state; this always succeeds. -/
def enterFault (s : Scheduler) : Scheduler :=
  let s := { s with state := s.state.enterFault }
  let s := s.setSafeOutputs
  { s with engine := s.engine ++ [.fault] }

/-- BOOT → INIT → PRE_OP; `init` is the answer of the engine. -/
def initializeScheduler (s : Scheduler) (init : PlcResult Unit) : PlcResult Unit × Scheduler :=
  match s.state.transition .init with
  | .error e => (.error e, s)
  | .ok state =>
    let s := { s with state := state, engine := s.engine ++ [.init init] }
    match init with
    | .error e => (.error (.config s!"Logic engine initialization failed: {e.display}"), s)
    | .ok () =>
      match s.state.transition .preOp with
      | .error e => (.error e, s)
      | .ok state => (.ok (), { s with state := state })

/-- Starts the watchdog where there is one. -/
def startWatchdog (s : Scheduler) (spawn : Except String Unit) : PlcResult Unit × Scheduler :=
  match s.watchdog with
  | none => (.ok (), s)
  | some wd => ((wd.start spawn).1, { s with watchdog := some (wd.start spawn).2 })

/-- PRE_OP → RUN; starts the watchdog where there is one. -/
def start (s : Scheduler) (spawn : Except String Unit) : PlcResult Unit × Scheduler :=
  if s.state.current ≠ .preOp then
    (.error (.invalidStateTransition s.state.current.display RuntimeState.run.display), s)
  else
    match s.startWatchdog spawn with
    | (.error e, s) => (.error e, s)
    | (.ok (), s) =>
      match s.state.transition .run with
      | .error e => (.error e, s)
      | .ok state => (.ok (), { s with state := state })

/-- Stops the watchdog, leaves RUN and sets the outputs to the safe state. -/
def stop (s : Scheduler) : PlcResult Unit × Scheduler :=
  let s := { s with watchdog := s.watchdog.map Watchdog.stop }
  if s.state.current = .run then
    match s.state.transition .safeStop with
    | .error e => (.error e, s)
    | .ok state => (.ok (), setSafeOutputs { s with state := state })
  else (.ok (), s.setSafeOutputs)

/-- The watchdog's flag, where there is a watchdog. -/
def watchdogTriggered (s : Scheduler) (timedOut : Bool) : Bool :=
  match s.watchdog with
  | some wd => wd.triggered || timedOut
  | none => false

/-- Nanoseconds as the error of an overrun carries them. -/
def overrunError (s : Scheduler) (executionTime : Nat) : PlcError :=
  .cycleOverrun (BitVec.ofNat 64 s.cyclePeriod) (BitVec.ofNat 64 executionTime)

/-- After a successful step: the outputs are published and remembered, and the cycle counts. -/
def publish (s : Scheduler) (outputs : ProcessData) : Scheduler :=
  { s with
    io := s.io.writeOutputs fun data => data.withOutputs outputs
    lastOutputs := s.lastOutputs.withOutputs outputs
    cycleCount := s.cycleCount + 1 }

/-- The overrun is above the tolerance, and the policy makes it a fault. -/
def criticalOverrun (s : Scheduler) (executionTime : Nat) : Prop :=
  s.cyclePeriod < executionTime ∧ s.maxOverrun < executionTime - s.cyclePeriod ∧
    s.faultPolicy.onOverrun = .fault

instance (s : Scheduler) (executionTime : Nat) : Decidable (s.criticalOverrun executionTime) :=
  inferInstanceAs (Decidable (_ ∧ _ ∧ _))

/-- The result of a cycle that is not faulted. -/
def cycleResult (s : Scheduler) (executionTime : Nat) : CycleResult where
  executionTime := executionTime
  overrun := s.cyclePeriod < executionTime
  cycleCount := s.cycleCount

/-- The check for an overrun at the end of a cycle. -/
def checkOverrun (s : Scheduler) (executionTime : Nat) : PlcResult CycleResult × Scheduler :=
  if s.criticalOverrun executionTime then (.error (s.overrunError executionTime), s.enterFault)
  else (.ok (s.cycleResult executionTime), s)

/-- The engine has been asked for a step. -/
def asked (s : Scheduler) (inputs : ProcessData) (result : PlcResult ProcessData) : Scheduler :=
  { s with engine := s.engine ++ [.step inputs result] }

/-- Executes one scan cycle. -/
def runCycle (s : Scheduler) (events : CycleEvents) : PlcResult CycleResult × Scheduler :=
  if s.state.current ≠ .run then
    (.error (.fault s!"Cannot run cycle in state {s.state.current.display}"), s)
  else if s.watchdogTriggered events.timedOut then
    (.error (.fault "Watchdog timeout"), s.enterFault)
  else
    let inputs := s.io.readInputs
    let result := events.step inputs
    let s := s.asked inputs result
    match result with
    | .error e => (.error e, s.enterFault)
    | .ok outputs => (s.publish outputs).checkOverrun events.executionTime

/-! ## What an operation leaves alone -/

@[simp] theorem setSafeOutputs_state (s : Scheduler) : s.setSafeOutputs.state = s.state := rfl

@[simp] theorem setSafeOutputs_engine (s : Scheduler) : s.setSafeOutputs.engine = s.engine := rfl

@[simp] theorem setSafeOutputs_faultPolicy (s : Scheduler) :
    s.setSafeOutputs.faultPolicy = s.faultPolicy := rfl

@[simp] theorem setSafeOutputs_lastOutputs (s : Scheduler) :
    s.setSafeOutputs.lastOutputs = s.lastOutputs := rfl

@[simp] theorem enterFault_state (s : Scheduler) : s.enterFault.state = s.state.enterFault := rfl

@[simp] theorem enterFault_engine (s : Scheduler) :
    s.enterFault.engine = s.engine ++ [.fault] := rfl

@[simp] theorem enterFault_faultPolicy (s : Scheduler) :
    s.enterFault.faultPolicy = s.faultPolicy := rfl

@[simp] theorem enterFault_lastOutputs (s : Scheduler) :
    s.enterFault.lastOutputs = s.lastOutputs := rfl

@[simp] theorem publish_state (s : Scheduler) (outputs : ProcessData) :
    (s.publish outputs).state = s.state := rfl

@[simp] theorem publish_engine (s : Scheduler) (outputs : ProcessData) :
    (s.publish outputs).engine = s.engine := rfl

@[simp] theorem publish_faultPolicy (s : Scheduler) (outputs : ProcessData) :
    (s.publish outputs).faultPolicy = s.faultPolicy := rfl

@[simp] theorem asked_io (s : Scheduler) (inputs : ProcessData) (result : PlcResult ProcessData) :
    (s.asked inputs result).io = s.io := rfl

@[simp] theorem asked_state (s : Scheduler) (inputs : ProcessData)
    (result : PlcResult ProcessData) :
    (s.asked inputs result).state = s.state := rfl

@[simp] theorem asked_engine (s : Scheduler) (inputs : ProcessData)
    (result : PlcResult ProcessData) :
    (s.asked inputs result).engine = s.engine ++ [.step inputs result] := rfl

@[simp] theorem asked_faultPolicy (s : Scheduler) (inputs : ProcessData)
    (result : PlcResult ProcessData) : (s.asked inputs result).faultPolicy = s.faultPolicy := rfl

@[simp] theorem asked_lastOutputs (s : Scheduler) (inputs : ProcessData)
    (result : PlcResult ProcessData) : (s.asked inputs result).lastOutputs = s.lastOutputs := rfl

/-! ## What a cycle can do -/

/-- The ways a call of `runCycle` can end. -/
inductive CycleOutcome (s : Scheduler) (events : CycleEvents) : Prop where
  | refused (hstate : s.state.current ≠ .run)
      (heq : s.runCycle events =
        (.error (.fault s!"Cannot run cycle in state {s.state.current.display}"), s))
  | timeout (hstate : s.state.current = .run) (hwd : s.watchdogTriggered events.timedOut = true)
      (heq : s.runCycle events = (.error (.fault "Watchdog timeout"), s.enterFault))
  | failed (hstate : s.state.current = .run) (hwd : s.watchdogTriggered events.timedOut = false)
      (e : PlcError) (hstep : events.step s.io.readInputs = .error e)
      (heq : s.runCycle events = (.error e, (s.asked s.io.readInputs (.error e)).enterFault))
  | overrun (hstate : s.state.current = .run) (hwd : s.watchdogTriggered events.timedOut = false)
      (outputs : ProcessData) (hstep : events.step s.io.readInputs = .ok outputs)
      (htime : s.criticalOverrun events.executionTime)
      (heq : s.runCycle events = (.error (s.overrunError events.executionTime),
        ((s.asked s.io.readInputs (.ok outputs)).publish outputs).enterFault))
  | completed (hstate : s.state.current = .run)
      (hwd : s.watchdogTriggered events.timedOut = false)
      (outputs : ProcessData) (hstep : events.step s.io.readInputs = .ok outputs)
      (htime : ¬ s.criticalOverrun events.executionTime)
      (heq : s.runCycle events =
        (.ok (((s.asked s.io.readInputs (.ok outputs)).publish outputs).cycleResult
          events.executionTime), (s.asked s.io.readInputs (.ok outputs)).publish outputs))

/-- Every cycle ends in one of these ways. -/
theorem runCycle_cases (s : Scheduler) (events : CycleEvents) : CycleOutcome s events := by
  by_cases hstate : s.state.current = .run
  · cases hwd : s.watchdogTriggered events.timedOut with
    | true =>
      refine .timeout hstate hwd ?_
      simp only [runCycle, hstate, hwd, ne_eq, not_true_eq_false, if_false, if_true]
    | false =>
      cases hstep : events.step s.io.readInputs with
      | error e =>
        refine .failed hstate hwd e hstep ?_
        simp [runCycle, hstate, hwd, hstep]
      | ok outputs =>
        by_cases htime : s.criticalOverrun events.executionTime
        · refine .overrun hstate hwd outputs hstep htime ?_
          have htime' : ((s.asked s.io.readInputs (.ok outputs)).publish outputs).criticalOverrun
              events.executionTime := htime
          simp only [runCycle, hstate, hwd, hstep, checkOverrun, htime', ne_eq, not_true_eq_false,
            if_false, if_true, Bool.false_eq_true]
          rfl
        · refine .completed hstate hwd outputs hstep htime ?_
          have htime' : ¬ ((s.asked s.io.readInputs (.ok outputs)).publish outputs).criticalOverrun
              events.executionTime := htime
          simp only [runCycle, hstate, hwd, hstep, checkOverrun, htime', ne_eq, not_true_eq_false,
            if_false, Bool.false_eq_true]
  · refine .refused hstate ?_
    simp [runCycle, hstate]

end Scheduler

end VirtualPlc.Runtime

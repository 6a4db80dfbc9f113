import VirtualPlc.Runtime.Outputs

/-!
# The main loop of the daemon

`runSchedulerLoop` with everything outside it as an argument: a `World` holds the answers of the
engine, of the operating system and, for each turn of the loop, of the signal handler, the fieldbus
driver, the logic and the clock. The calls the loop makes are recorded in order.
-/

set_option autoImplicit false

namespace VirtualPlc.Daemon

open VirtualPlc.Runtime

/-- A call that the loop makes, with the answers it gets; `enterFault` with the state after it. -/
inductive LoopCall where
  | setOutputs (outputs : FieldbusOutputs)
  | exchange (result : PlcResult Unit)
  | getInputs (inputs : FieldbusInputs)
  | runCycle
  | enterFault (state : RuntimeState)
  | shutdown
deriving DecidableEq, Repr

/-- What one turn of the loop finds: the shutdown flag, the results of the regular exchange, of the
one that sends zeros after a failure and of the one after a recovery, the inputs, and what the cycle
finds. -/
structure Cycle where
  shutdownRequested : Bool
  exchange : PlcResult Unit
  safeExchange : PlcResult Unit
  recoveredExchange : PlcResult Unit
  inputs : FieldbusInputs
  events : CycleEvents

/-- Everything outside the loop. `polls` are the elapsed time and the shutdown flag at each look of
`waitForShutdown`. -/
structure World where
  init : PlcResult Unit
  spawn : Except String Unit
  polls : List (Nat × Bool)
  cycles : List Cycle

/-- Configuration of a run; the failure policy is that of the scheduler. -/
structure Setup where
  config : RuntimeConfig
  maxCycles : BitVec 64
deriving DecidableEq, Repr

/-- Fieldbus failure policy of a run. -/
def Setup.failurePolicy (setup : Setup) : FieldbusFailurePolicy :=
  setup.config.faultPolicy.fieldbusFailure

/-- Variables of the loop, and its calls so far. -/
structure LoopState where
  scheduler : Scheduler
  calls : List LoopCall
  cyclesRun : BitVec 64
  consecutiveFbFailures : BitVec 32
  inFailureStreak : Bool
  recoveryCyclesRemaining : BitVec 32
deriving DecidableEq, Repr

/-- Whether the loop goes on. -/
inductive Flow where
  | next (v : LoopState)
  | leave (v : LoopState)
deriving DecidableEq, Repr

/-- The variables, whether the loop goes on or not. -/
def Flow.state : Flow → LoopState
  | .next v | .leave v => v

/-- The error that faults at once. -/
def isWkcThreshold : PlcResult Unit → Bool
  | .error (.wkcThresholdExceeded _ _) => true
  | _ => false

namespace LoopState

/-- Records calls. -/
def call (v : LoopState) (calls : List LoopCall) : LoopState := { v with calls := v.calls ++ calls }

@[simp] theorem call_scheduler (v : LoopState) (calls : List LoopCall) :
    (v.call calls).scheduler = v.scheduler := rfl

@[simp] theorem call_calls (v : LoopState) (calls : List LoopCall) :
    (v.call calls).calls = v.calls ++ calls := rfl

/-- The published outputs as the fieldbus takes them. -/
def outputs (v : LoopState) : FieldbusOutputs := v.scheduler.io.readOutputs.fieldbusOutputs

/-- A fieldbus fault. -/
def enterFault (v : LoopState) : LoopState :=
  { v.call [.enterFault v.scheduler.enterFault.state.current] with
    scheduler := v.scheduler.enterFault }

/-- A failed exchange: counts, and sends zeros. The result of that exchange is not looked at. -/
def exchangeFailed (v : LoopState) (cycle : Cycle) : LoopState :=
  { v.call [.setOutputs .zero, .exchange cycle.safeExchange] with
    consecutiveFbFailures := v.consecutiveFbFailures + 1
    inFailureStreak := true
    recoveryCyclesRemaining := 0 }

/-- The limit on failures is set and reached. -/
def limitReached (v : LoopState) (policy : FieldbusFailurePolicy) : Bool :=
  0 < policy.maxConsecutiveFailures && policy.maxConsecutiveFailures ≤ v.consecutiveFbFailures

/-- Cycles of the grace period that are left after a good exchange; the first one starts it. -/
def graceLeft (policy : FieldbusFailurePolicy) (remaining : BitVec 32) : BitVec 32 :=
  let remaining := if remaining = 0 then policy.recoveryGraceCycles else remaining
  if 0 < remaining then remaining - 1 else remaining

/-- A good exchange in a failure streak. The streak ends after the grace period; then the published
outputs are sent, and the result of that exchange is not looked at either. -/
def exchangeRecovered (v : LoopState) (policy : FieldbusFailurePolicy) (cycle : Cycle) :
    LoopState :=
  let remaining := graceLeft policy v.recoveryCyclesRemaining
  if remaining = 0 then
    { v.call [.setOutputs v.outputs, .exchange cycle.recoveredExchange] with
      inFailureStreak := false
      consecutiveFbFailures := 0
      recoveryCyclesRemaining := remaining }
  else { v with recoveryCyclesRemaining := remaining }

/-- Copies the driver's inputs to the process image. -/
def readInputs (v : LoopState) (cycle : Cycle) : LoopState :=
  { v.call [.getInputs cycle.inputs] with
    scheduler := { v.scheduler with
      io := v.scheduler.io.writeInputs fun data => data.withInputs cycle.inputs } }

/-- The second half of a turn: the inputs, the logic and the cycle limit. -/
def logicCycle (maxCycles : BitVec 64) (v : LoopState) (cycle : Cycle) : Flow :=
  let v := v.readInputs cycle
  match v.scheduler.runCycle cycle.events with
  | (.error _, scheduler) => .leave { v.call [.runCycle] with scheduler := scheduler }
  | (.ok _, scheduler) =>
    let v := { v.call [.runCycle] with scheduler := scheduler, cyclesRun := v.cyclesRun + 1 }
    if 0 < maxCycles ∧ maxCycles ≤ v.cyclesRun then .leave v else .next v

/-- The first half of a turn: the regular exchange. -/
def sendOutputs (v : LoopState) (cycle : Cycle) : LoopState :=
  (if v.inFailureStreak then v else v.call [.setOutputs v.outputs]).call [.exchange cycle.exchange]

/-- One turn of the loop. -/
def turn (setup : Setup) (v : LoopState) (cycle : Cycle) : Flow :=
  if cycle.shutdownRequested then .leave v
  else
    let v := v.sendOutputs cycle
    match cycle.exchange with
    | .error e =>
      if isWkcThreshold (.error e) then .leave v.enterFault
      else
        let v := v.exchangeFailed cycle
        if v.limitReached setup.failurePolicy then .leave v.enterFault
        else v.logicCycle setup.maxCycles cycle
    | .ok () =>
      let v := if v.inFailureStreak then v.exchangeRecovered setup.failurePolicy cycle else v
      v.logicCycle setup.maxCycles cycle

/-- The loop, for as long as the world answers. The second component is what it did not use. -/
def mainLoop (setup : Setup) (v : LoopState) : List Cycle → Flow × List Cycle
  | [] => if v.scheduler.state.current = .run then (.next v, []) else (.leave v, [])
  | cycle :: rest =>
    if v.scheduler.state.current = .run then
      match v.turn setup cycle with
      | .next v' => v'.mainLoop setup rest
      | .leave v' => (.leave v', rest)
    else (.leave v, cycle :: rest)

/-! ## What a turn can do -/

/-- The ways a turn can go. -/
inductive TurnOutcome (setup : Setup) (v : LoopState) (cycle : Cycle) : Prop where
  | stopped (hstop : cycle.shutdownRequested = true) (heq : v.turn setup cycle = .leave v)
  | wkcFault (hstop : cycle.shutdownRequested = false)
      (hwkc : isWkcThreshold cycle.exchange = true)
      (heq : v.turn setup cycle = .leave (v.sendOutputs cycle).enterFault)
  | gaveUp (hstop : cycle.shutdownRequested = false) (e : PlcError)
      (hexchange : cycle.exchange = .error e) (hwkc : isWkcThreshold (.error e) = false)
      (hlimit : ((v.sendOutputs cycle).exchangeFailed cycle).limitReached setup.failurePolicy =
        true)
      (heq : v.turn setup cycle = .leave ((v.sendOutputs cycle).exchangeFailed cycle).enterFault)
  | failed (hstop : cycle.shutdownRequested = false) (e : PlcError)
      (hexchange : cycle.exchange = .error e) (hwkc : isWkcThreshold (.error e) = false)
      (hlimit : ((v.sendOutputs cycle).exchangeFailed cycle).limitReached setup.failurePolicy =
        false)
      (heq : v.turn setup cycle =
        ((v.sendOutputs cycle).exchangeFailed cycle).logicCycle setup.maxCycles cycle)
  | recovering (hstop : cycle.shutdownRequested = false) (hexchange : cycle.exchange = .ok ())
      (hstreak : v.inFailureStreak = true)
      (heq : v.turn setup cycle = ((v.sendOutputs cycle).exchangeRecovered setup.failurePolicy
        cycle).logicCycle setup.maxCycles cycle)
  | normal (hstop : cycle.shutdownRequested = false) (hexchange : cycle.exchange = .ok ())
      (hstreak : v.inFailureStreak = false)
      (heq : v.turn setup cycle = (v.sendOutputs cycle).logicCycle setup.maxCycles cycle)

@[simp] theorem sendOutputs_inFailureStreak (v : LoopState) (cycle : Cycle) :
    (v.sendOutputs cycle).inFailureStreak = v.inFailureStreak := by
  unfold sendOutputs
  split <;> rfl

/-- Every turn goes in one of these ways. -/
theorem turn_cases (setup : Setup) (v : LoopState) (cycle : Cycle) : TurnOutcome setup v cycle := by
  cases hstop : cycle.shutdownRequested with
  | true => exact .stopped hstop (by simp only [turn, hstop, if_true])
  | false =>
    cases hexchange : cycle.exchange with
    | error e =>
      cases hwkc : isWkcThreshold (.error e) with
      | true =>
        refine .wkcFault hstop (by rw [hexchange, hwkc]) ?_
        simp only [turn, hstop, hexchange, hwkc, if_true, Bool.false_eq_true, if_false]
      | false =>
        cases hlimit : ((v.sendOutputs cycle).exchangeFailed cycle).limitReached
            setup.failurePolicy with
        | true =>
          refine .gaveUp hstop e hexchange hwkc hlimit ?_
          simp only [turn, hstop, hexchange, hwkc, hlimit, if_true, Bool.false_eq_true, if_false]
        | false =>
          refine .failed hstop e hexchange hwkc hlimit ?_
          simp only [turn, hstop, hexchange, hwkc, hlimit, Bool.false_eq_true, if_false]
    | ok u =>
      cases hstreak : v.inFailureStreak with
      | true =>
        refine .recovering hstop hexchange hstreak ?_
        simp only [turn, hstop, hexchange, sendOutputs_inFailureStreak, hstreak, if_true,
          Bool.false_eq_true, if_false]
      | false =>
        refine .normal hstop hexchange hstreak ?_
        simp only [turn, hstop, hexchange, sendOutputs_inFailureStreak, hstreak,
          Bool.false_eq_true, if_false]

/-- The loop keeps what a turn keeps. `Inv` speaks of the turns so far and the variables; a run
either goes on with it, or has left after a last turn from variables that had it. -/
theorem mainLoop_rule {setup : Setup} {Inv : List Cycle → LoopState → Prop}
    (hrun : ∀ past v, Inv past v → v.scheduler.state.current = .run)
    (hturn : ∀ past v cycle v', Inv past v → v.turn setup cycle = .next v' →
      Inv (past ++ [cycle]) v')
    (cycles past : List Cycle) (v : LoopState) (h : Inv past v) :
    (∃ v', v.mainLoop setup cycles = (.next v', []) ∧ Inv (past ++ cycles) v') ∨
      ∃ front cycle unused v' v'', cycles = front ++ cycle :: unused ∧
        v.mainLoop setup cycles = (.leave v'', unused) ∧ Inv (past ++ front) v' ∧
        v'.turn setup cycle = .leave v'' := by
  induction cycles generalizing past v with
  | nil => exact .inl ⟨v, by simp [mainLoop, hrun past v h], by simpa using h⟩
  | cons cycle rest ih =>
    have hstate := hrun past v h
    cases hflow : v.turn setup cycle with
    | leave v' =>
      refine .inr ⟨[], cycle, rest, v, v', rfl, ?_, by simpa using h, hflow⟩
      simp only [mainLoop, hstate, hflow, if_true]
    | next v' =>
      have hloop : v.mainLoop setup (cycle :: rest) = v'.mainLoop setup rest := by
        simp only [mainLoop, hstate, hflow, if_true]
      rw [hloop]
      rcases ih (past ++ [cycle]) v' (hturn past v cycle v' h hflow) with
        ⟨w, heq, hw⟩ | ⟨front, last, unused, w, w', hsplit, heq, hw, hlast⟩
      · exact .inl ⟨w, heq, by simpa using hw⟩
      · refine .inr ⟨cycle :: front, last, unused, w, w', ?_, heq, by simpa using hw, hlast⟩
        rw [hsplit, List.cons_append]

/-- After the loop: stops the scheduler and shuts the driver down. Neither looks at an error. -/
def shutDown (v : LoopState) : LoopState :=
  { v.call [.shutdown] with scheduler := v.scheduler.stop.2 }

end LoopState

/-- Looks at the shutdown flag until the timeout has passed. -/
def waitForShutdown (timeout : Nat) : List (Nat × Bool) → Bool
  | [] => false
  | (elapsed, requested) :: polls =>
    if elapsed < timeout then requested || waitForShutdown timeout polls else false

/-- With a timeout of zero, the flag is not looked at: no time is below zero. -/
@[simp] theorem waitForShutdown_zero (polls : List (Nat × Bool)) :
    waitForShutdown 0 polls = false := by
  cases polls with
  | nil => rfl
  | cons poll polls => simp [waitForShutdown]

/-- A new scheduler with its watchdog. -/
def createScheduler (config : RuntimeConfig) : Scheduler :=
  { Scheduler.new config with watchdog := some .new }

/-- The variables at the start of the loop. -/
def LoopState.new (scheduler : Scheduler) : LoopState where
  scheduler := scheduler
  calls := []
  cyclesRun := 0
  consecutiveFbFailures := 0
  inFailureStreak := false
  recoveryCyclesRemaining := 0

/-- How far a run has got. -/
inductive Run where
  | failed (context : String) (e : PlcError)
  | running (v : LoopState)
  | finished (v : LoopState) (unused : List Cycle)

/-- The calls of a run so far. -/
def Run.calls : Run → List LoopCall
  | .failed _ _ => []
  | .running v | .finished v _ => v.calls

/-- What a run has not used of the turns it was given. -/
def Run.unused (cycles : List Cycle) : Run → List Cycle
  | .failed _ _ => cycles
  | .running _ => []
  | .finished _ unused => unused

/-- The scheduler loop of the daemon. -/
def runSchedulerLoop (setup : Setup) (world : World) : Run :=
  match (createScheduler setup.config).initializeScheduler world.init with
  | (.error e, _) => .failed "Failed to initialize scheduler" e
  | (.ok (), scheduler) =>
    match scheduler.start world.spawn with
    | (.error e, _) => .failed "Failed to start scheduler" e
    | (.ok (), scheduler) =>
      let v := LoopState.new scheduler
      if waitForShutdown 0 world.polls then .finished v.shutDown world.cycles
      else
        match v.mainLoop setup world.cycles with
        | (.next v, _) => .running v
        | (.leave v, unused) => .finished v.shutDown unused

end VirtualPlc.Daemon

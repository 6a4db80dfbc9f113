import VirtualPlc.Runtime.FaultRecorder
import VirtualPlc.Runtime.Outputs

/-!
# The cycle numbers of fault records

The scheduler with its fault recorder. A cycle counts when its outputs are published: what is
recorded after that has the number of the cycle, but a watchdog fault and a failed step come before
it and are recorded with the number of the cycle before. `numbered_iff` says that this is all that
goes wrong.
-/

set_option autoImplicit false

namespace VirtualPlc.Runtime

/-- Durations that a cycle measures apart from its execution time, and the instants at which it
gives frames to the recorder. -/
structure CycleMeasurements where
  ioRead : Nat
  logicExec : Nat
  ioWrite : Nat
  recordedAt : Nat
  faultedAt : Nat
deriving DecidableEq, Repr

/-- The cycle number that comes with a frame. -/
def RecorderOp.cycle : RecorderOp → Option (BitVec 64)
  | recordCycle _ cycle _ _ | recordFault _ cycle _ _ | recordFaultWithIo _ cycle _ _ _ _ =>
    some cycle
  | freeze | reset _ => none

/-- The scheduler and its recorder. `called` counts the calls of `runCycle` in RUN, and `given` has
what was given to the recorder in each of them; no step looks at either. -/
structure Recorded (n : Nat) where
  scheduler : Scheduler
  recorder : FaultRecorder n
  called : Nat
  given : List (Nat × RecorderOp)

namespace Recorded

variable {n : Nat}

/-- A new scheduler, with or without a watchdog. -/
def new (config : RuntimeConfig) (watchdog : Option Watchdog) (recorder : FaultRecorder n) :
    Recorded n where
  scheduler := { Scheduler.new config with watchdog := watchdog }
  recorder := recorder
  called := 0
  given := []

/-- Gives a frame to the recorder. -/
def record (r : Recorded n) (op : RecorderOp) : Recorded n :=
  { r with recorder := r.recorder.apply op, given := r.given ++ [(r.called, op)] }

/-- Enters the fault state. -/
def enterFault (r : Recorded n) : Recorded n := { r with scheduler := r.scheduler.enterFault }

/-- The check for an overrun at the end of a cycle. -/
def checkOverrun (r : Recorded n) (executionTime : Nat) (timings : CyclePhaseTimings)
    (m : CycleMeasurements) : PlcResult CycleResult × Recorded n :=
  if r.scheduler.criticalOverrun executionTime then
    let r := r.record (.recordFault m.faultedAt r.scheduler.cycleCount .cycleOverrun timings)
    (.error (r.scheduler.overrunError executionTime), r.enterFault)
  else (.ok (r.scheduler.cycleResult executionTime), r)

/-- The engine has been asked for a step. -/
def asked (r : Recorded n) (inputs : ProcessData) (result : PlcResult ProcessData) : Recorded n :=
  { r with scheduler := r.scheduler.asked inputs result }

/-- After a successful step: the outputs are published, the cycle counts, and its frame is recorded.
-/
def publish (r : Recorded n) (inputs outputs : ProcessData) (timings : CyclePhaseTimings)
    (m : CycleMeasurements) : Recorded n :=
  let r := { r with scheduler := r.scheduler.publish outputs }
  r.record (.recordCycle m.recordedAt r.scheduler.cycleCount timings
    [.inputs inputs, .outputs outputs])

/-- Executes one scan cycle. -/
def runCycle (r : Recorded n) (events : CycleEvents) (m : CycleMeasurements) :
    PlcResult CycleResult × Recorded n :=
  if r.scheduler.state.current ≠ .run then
    (.error (.fault s!"Cannot run cycle in state {r.scheduler.state.current.display}"), r)
  else
    let r := { r with called := r.called + 1 }
    if r.scheduler.watchdogTriggered events.timedOut then
      let r := r.record (.recordFault m.recordedAt r.scheduler.cycleCount .watchdogTimeout .default)
      (.error (.fault "Watchdog timeout"), r.enterFault)
    else
      let inputs := r.scheduler.io.readInputs
      let result := events.step inputs
      let r := r.asked inputs result
      match result with
      | .error e =>
        let timings : CyclePhaseTimings := ⟨m.ioRead, m.logicExec, 0, 0, events.executionTime⟩
        let r := r.record (.recordFault m.recordedAt r.scheduler.cycleCount .logicError timings)
        (.error e, r.enterFault)
      | .ok outputs =>
        let timings : CyclePhaseTimings :=
          ⟨m.ioRead, m.logicExec, m.ioWrite, 0, events.executionTime⟩
        (r.publish inputs outputs timings m).checkOverrun events.executionTime timings m

/-- The next operation on the scheduler; only cycles touch the recorder. -/
def next (r : Recorded n) : Operation × CycleMeasurements → Recorded n
  | (.runCycle events, m) => (r.runCycle events m).2
  | (op, _) => { r with scheduler := op.apply r.scheduler }

/-- After some operations. -/
def run (r : Recorded n) (ops : List (Operation × CycleMeasurements)) : Recorded n :=
  ops.foldl next r

/-- Every frame that was given has the number of its cycle. -/
def Numbered (r : Recorded n) : Prop :=
  ∀ number op cycle, (number, op) ∈ r.given → op.cycle = some cycle → cycle.toNat = number

/-- The call of a cycle in RUN gets its outputs from the logic: the watchdog has not triggered, and
the step succeeds. -/
def Steps (s : Scheduler) : Operation → Prop
  | .runCycle events =>
    s.state.current = .run → s.watchdogTriggered events.timedOut = false ∧
      ∃ outputs, events.step s.io.readInputs = .ok outputs
  | .init _ | .start _ | .enterFault | .stop | .writeInputs _ => True

/-! ## What a cycle gives to the recorder -/

/-- The check for an overrun does the same with a recorder. -/
theorem checkOverrun_scheduler (r : Recorded n) (executionTime : Nat) (timings : CyclePhaseTimings)
    (m : CycleMeasurements) :
    (r.checkOverrun executionTime timings m).1 = (r.scheduler.checkOverrun executionTime).1 ∧
      (r.checkOverrun executionTime timings m).2.scheduler =
        (r.scheduler.checkOverrun executionTime).2 := by
  rw [checkOverrun, Scheduler.checkOverrun]
  split
  · exact ⟨rfl, rfl⟩
  · exact ⟨rfl, rfl⟩

/-- The recorder does not change what a cycle does. -/
theorem runCycle_scheduler (r : Recorded n) (events : CycleEvents) (m : CycleMeasurements) :
    (r.runCycle events m).1 = (r.scheduler.runCycle events).1 ∧
      (r.runCycle events m).2.scheduler = (r.scheduler.runCycle events).2 := by
  rw [runCycle, Scheduler.runCycle]
  split
  · exact ⟨rfl, rfl⟩
  · dsimp only
    split
    · exact ⟨rfl, rfl⟩
    · cases events.step r.scheduler.io.readInputs with
      | error e => exact ⟨rfl, rfl⟩
      | ok outputs => exact checkOverrun_scheduler _ events.executionTime _ m

/-- An overrun may be given with the number that the scheduler has; nothing else changes. -/
theorem checkOverrun_given (r : Recorded n) (executionTime : Nat) (timings : CyclePhaseTimings)
    (m : CycleMeasurements) :
    ∃ ops : List RecorderOp, (∀ op ∈ ops, op.cycle = some r.scheduler.cycleCount) ∧
      (r.checkOverrun executionTime timings m).2.given =
        r.given ++ ops.map fun op => (r.called, op) := by
  rw [checkOverrun]
  split
  · refine ⟨[.recordFault m.faultedAt r.scheduler.cycleCount .cycleOverrun timings], ?_, rfl⟩
    intro op hop
    rw [List.mem_singleton.mp hop]
    rfl
  · exact ⟨[], fun op hop => absurd hop List.not_mem_nil, (List.append_nil _).symm⟩

theorem checkOverrun_counts (r : Recorded n) (executionTime : Nat) (timings : CyclePhaseTimings)
    (m : CycleMeasurements) :
    (r.checkOverrun executionTime timings m).2.scheduler.cycleCount = r.scheduler.cycleCount ∧
      (r.checkOverrun executionTime timings m).2.called = r.called := by
  rw [checkOverrun]
  split
  · exact ⟨rfl, rfl⟩
  · exact ⟨rfl, rfl⟩

/-- What a call of `runCycle` can give to the recorder: nothing outside RUN, a frame with the count
from before where the logic does not step, and frames with the new count where it does. -/
inductive Gives (r : Recorded n) (events : CycleEvents) (m : CycleMeasurements) : Prop where
  | refused (hstep : Steps r.scheduler (.runCycle events)) (heq : (r.runCycle events m).2 = r)
  | missed (hstep : ¬ Steps r.scheduler (.runCycle events)) (op : RecorderOp)
      (hop : op.cycle = some r.scheduler.cycleCount)
      (hgiven : (r.runCycle events m).2.given = r.given ++ [(r.called + 1, op)])
      (hcalled : (r.runCycle events m).2.called = r.called + 1)
  | stepped (hstep : Steps r.scheduler (.runCycle events)) (op : RecorderOp) (ops : List RecorderOp)
      (hops : ∀ op' ∈ op :: ops, op'.cycle = some (r.scheduler.cycleCount + 1))
      (hgiven : (r.runCycle events m).2.given =
        r.given ++ (op :: ops).map fun op => (r.called + 1, op))
      (hcount : (r.runCycle events m).2.scheduler.cycleCount = r.scheduler.cycleCount + 1)
      (hcalled : (r.runCycle events m).2.called = r.called + 1)

theorem runCycle_gives (r : Recorded n) (events : CycleEvents) (m : CycleMeasurements) :
    Gives r events m := by
  by_cases hstate : r.scheduler.state.current = .run
  · cases hwd : r.scheduler.watchdogTriggered events.timedOut with
    | true =>
      refine .missed (fun hstep => ?_)
        (.recordFault m.recordedAt r.scheduler.cycleCount .watchdogTimeout .default) rfl ?_ ?_
      · rw [(hstep hstate).1] at hwd
        cases hwd
      all_goals
        simp only [runCycle, hstate, hwd, ne_eq, not_true_eq_false, if_false, if_true]
        rfl
    | false =>
      cases hresult : events.step r.scheduler.io.readInputs with
      | error e =>
        refine .missed (fun hstep => ?_) (.recordFault m.recordedAt r.scheduler.cycleCount
          .logicError ⟨m.ioRead, m.logicExec, 0, 0, events.executionTime⟩) rfl ?_ ?_
        · obtain ⟨outputs, hok⟩ := (hstep hstate).2
          rw [hresult] at hok
          cases hok
        all_goals
          simp only [runCycle, hstate, hwd, hresult, ne_eq, not_true_eq_false, if_false,
            Bool.false_eq_true]
          rfl
      | ok outputs =>
        -- the frame of the cycle, and perhaps that of an overrun
        let timings : CyclePhaseTimings :=
          ⟨m.ioRead, m.logicExec, m.ioWrite, 0, events.executionTime⟩
        let published := (({ r with called := r.called + 1 }.asked r.scheduler.io.readInputs
          (.ok outputs)).publish r.scheduler.io.readInputs outputs timings m)
        have heq : r.runCycle events m = published.checkOverrun events.executionTime timings m := by
          simp only [runCycle, hstate, hwd, hresult, ne_eq, not_true_eq_false, if_false,
            Bool.false_eq_true]
          rfl
        obtain ⟨ops, hops, hgiven⟩ := published.checkOverrun_given events.executionTime timings m
        obtain ⟨hcount, hcalled⟩ := published.checkOverrun_counts events.executionTime timings m
        refine .stepped (fun _ => ⟨hwd, outputs, hresult⟩) (.recordCycle m.recordedAt
          (r.scheduler.cycleCount + 1) timings
          [.inputs r.scheduler.io.readInputs, .outputs outputs]) ops ?_ ?_ ?_ ?_
        · intro op hop
          rcases List.mem_cons.mp hop with rfl | hmem
          · rfl
          · exact hops op hmem
        · rw [heq, hgiven, List.map_cons, List.append_cons]
          rfl
        · rw [heq, hcount]
          rfl
        · rw [heq, hcalled]
          rfl
  · refine .refused (fun hrun => absurd hrun hstate) ?_
    rw [runCycle, if_pos hstate]

/-! ## Runs -/

/-- Whether the condition holds at every operation of a run. -/
def EveryCycleSteps (r : Recorded n) (ops : List (Operation × CycleMeasurements)) : Prop :=
  ∀ before op m after, ops = before ++ (op, m) :: after → Steps (r.run before).scheduler op

/-- Other operations leave the count alone. -/
theorem cycleCount_apply (s : Scheduler) {op : Operation} (hop : ∀ events, op ≠ .runCycle events) :
    (op.apply s).cycleCount = s.cycleCount := by
  cases op with
  | init result =>
    rw [Operation.apply, Scheduler.initializeScheduler]
    cases s.state.transition .init with
    | error e => rfl
    | ok state =>
      cases result with
      | error e => rfl
      | ok u =>
        dsimp only
        cases state.transition .preOp with
        | error e => rfl
        | ok state' => rfl
  | start spawn =>
    -- the watchdog is started before the state is changed, and neither counts
    have hstart : (s.startWatchdog spawn).2.cycleCount = s.cycleCount := by
      rw [Scheduler.startWatchdog]
      cases s.watchdog with
      | none => rfl
      | some wd => rfl
    rw [Operation.apply, Scheduler.start]
    split
    · rfl
    · rcases hanswer : s.startWatchdog spawn with ⟨result, s'⟩
      rw [hanswer] at hstart
      cases result with
      | error e => exact hstart
      | ok u =>
        dsimp only
        cases s'.state.transition .run with
        | error e => exact hstart
        | ok state => exact hstart
  | runCycle events => exact absurd rfl (hop events)
  | enterFault => rfl
  | stop =>
    rw [Operation.apply, Scheduler.stop]
    dsimp only
    split
    · cases s.state.transition .safeStop with
      | error e => rfl
      | ok state => rfl
    · rfl
  | writeInputs f => rfl

/-- All is well so far: the frames have their numbers, and the count is that of the calls. -/
structure Sound (r : Recorded n) : Prop where
  numbered : r.Numbered
  count : r.scheduler.cycleCount.toNat = r.called

theorem sound_new (config : RuntimeConfig) (watchdog : Option Watchdog)
    (recorder : FaultRecorder n) : (new config watchdog recorder).Sound :=
  ⟨fun _ _ _ hmem => absurd hmem List.not_mem_nil, rfl⟩

theorem next_of_ne (r : Recorded n) {op : Operation} (hop : ∀ events, op ≠ .runCycle events)
    (m : CycleMeasurements) : r.next (op, m) = { r with scheduler := op.apply r.scheduler } := by
  cases op with
  | runCycle events => exact absurd rfl (hop events)
  | init result => rfl
  | start spawn => rfl
  | enterFault => rfl
  | stop => rfl
  | writeInputs f => rfl

theorem steps_of_ne (s : Scheduler) {op : Operation} (hop : ∀ events, op ≠ .runCycle events) :
    Steps s op := by
  cases op with
  | runCycle events => exact absurd rfl (hop events)
  | init result => trivial
  | start spawn => trivial
  | enterFault => trivial
  | stop => trivial
  | writeInputs f => trivial

/-- A cycle of the scheduler, or another operation. -/
theorem cycle_or_ne (op : Operation) :
    (∃ events, op = .runCycle events) ∨ ∀ events, op ≠ .runCycle events := by
  by_cases h : ∃ events, op = .runCycle events
  · exact .inl h
  · exact .inr fun events heq => h ⟨events, heq⟩

/-- The scheduler goes through the operations as it does without a recorder. -/
theorem run_scheduler (r : Recorded n) (ops : List (Operation × CycleMeasurements)) :
    (r.run ops).scheduler = (ops.map Prod.fst).foldl Operation.apply r.scheduler := by
  induction ops generalizing r with
  | nil => rfl
  | cons first rest ih =>
    obtain ⟨op, m⟩ := first
    have hnext : (r.next (op, m)).scheduler = op.apply r.scheduler := by
      rcases cycle_or_ne op with ⟨events, rfl⟩ | hop
      · exact (r.runCycle_scheduler events m).2
      · rw [next_of_ne r hop m]
    rw [List.map_cons, List.foldl_cons, ← hnext]
    exact ih (r.next (op, m))


/-- Frames and calls are only added. -/
theorem next_grows (r : Recorded n) (op : Operation) (m : CycleMeasurements) :
    r.given <+: (r.next (op, m)).given ∧ r.called ≤ (r.next (op, m)).called := by
  rcases cycle_or_ne op with ⟨events, rfl⟩ | hop
  · show r.given <+: (r.runCycle events m).2.given ∧ r.called ≤ (r.runCycle events m).2.called
    cases r.runCycle_gives events m with
    | refused _ heq =>
      rw [heq]
      exact ⟨List.prefix_refl _, Nat.le_refl _⟩
    | missed _ op _ hgiven hcalled =>
      rw [hgiven, hcalled]
      exact ⟨List.prefix_append _ _, Nat.le_succ _⟩
    | stepped _ op ops _ hgiven _ hcalled =>
      rw [hgiven, hcalled]
      exact ⟨List.prefix_append _ _, Nat.le_succ _⟩
  · rw [next_of_ne r hop m]
    exact ⟨List.prefix_refl _, Nat.le_refl _⟩

theorem run_grows (r : Recorded n) (ops : List (Operation × CycleMeasurements)) :
    r.given <+: (r.run ops).given ∧ r.called ≤ (r.run ops).called := by
  induction ops generalizing r with
  | nil => exact ⟨List.prefix_refl _, Nat.le_refl _⟩
  | cons op rest ih =>
    have hnext := r.next_grows op.1 op.2
    have hrest := ih (r.next op)
    exact ⟨hnext.1.trans hrest.1, hnext.2.trans hrest.2⟩

/-- Frames that are numbered at the end were numbered before. -/
theorem Numbered.of_run {r : Recorded n} {ops : List (Operation × CycleMeasurements)}
    (h : (r.run ops).Numbered) : r.Numbered :=
  fun number op cycle hmem => h number op cycle ((r.run_grows ops).1.subset hmem)

/-- A cycle that steps gives the number of its call, until the count wraps. -/
theorem Sound.runCycle {r : Recorded n} (h : r.Sound) (events : CycleEvents)
    (m : CycleMeasurements) :
    ((r.runCycle events m).2.Numbered →
        Steps r.scheduler (.runCycle events) ∧ (r.runCycle events m).2.called < 2 ^ 64) ∧
      (Steps r.scheduler (.runCycle events) → (r.runCycle events m).2.called < 2 ^ 64 →
        (r.runCycle events m).2.Sound) := by
  have hbound : r.called < 2 ^ 64 := h.count ▸ r.scheduler.cycleCount.isLt
  cases r.runCycle_gives events m with
  | refused hstep heq =>
    rw [heq]
    exact ⟨fun _ => ⟨hstep, hbound⟩, fun _ _ => h⟩
  | missed hstep op hop hgiven hcalled =>
    refine ⟨fun hnumbered => ?_, fun hsteps => absurd hsteps hstep⟩
    -- the frame has the number of the cycle before
    have hmem : (r.called + 1, op) ∈ (r.runCycle events m).2.given := by
      rw [hgiven]
      exact List.mem_append_right _ (List.mem_singleton.mpr rfl)
    have hcycle := hnumbered _ op _ hmem hop
    rw [h.count] at hcycle
    omega
  | stepped hstep op ops hops hgiven hcount hcalled =>
    rw [hcalled]
    have hsucc : (r.scheduler.cycleCount + 1).toNat = (r.called + 1) % 2 ^ 64 := by
      rw [BitVec.toNat_add, h.count]
      rfl
    constructor
    · intro hnumbered
      have hmem : (r.called + 1, op) ∈ (r.runCycle events m).2.given := by
        rw [hgiven]
        exact List.mem_append_right _ List.mem_cons_self
      have hcycle := hnumbered _ op _ hmem (hops op List.mem_cons_self)
      rw [hsucc] at hcycle
      refine ⟨hstep, ?_⟩
      rw [← hcycle]
      exact Nat.mod_lt _ (Nat.two_pow_pos 64)
    · intro _ hlt
      rw [Nat.mod_eq_of_lt hlt] at hsucc
      refine ⟨fun number op' cycle hmem hop' => ?_, ?_⟩
      · rw [hgiven] at hmem
        rcases List.mem_append.mp hmem with hold | hnew
        · exact h.numbered number op' cycle hold hop'
        · obtain ⟨new, hnew, heq⟩ := List.mem_map.mp hnew
          cases heq
          rw [hops op' hnew] at hop'
          cases hop'
          exact hsucc
      · rw [hcount, hcalled]
        exact hsucc

/-- One operation gives a wrong number exactly when a cycle does not step or the count wraps. -/
theorem Sound.next {r : Recorded n} (h : r.Sound) (op : Operation) (m : CycleMeasurements) :
    ((r.next (op, m)).Numbered → Steps r.scheduler op ∧ (r.next (op, m)).called < 2 ^ 64) ∧
      (Steps r.scheduler op → (r.next (op, m)).called < 2 ^ 64 → (r.next (op, m)).Sound) := by
  rcases cycle_or_ne op with ⟨events, rfl⟩ | hop
  · exact h.runCycle events m
  · rw [next_of_ne r hop m]
    refine ⟨fun _ => ⟨steps_of_ne _ hop, h.count ▸ r.scheduler.cycleCount.isLt⟩, fun _ _ => ?_⟩
    exact ⟨h.numbered, by rw [cycleCount_apply r.scheduler hop]; exact h.count⟩

theorem everyCycleSteps_cons (r : Recorded n) (op : Operation) (m : CycleMeasurements)
    (rest : List (Operation × CycleMeasurements)) :
    EveryCycleSteps r ((op, m) :: rest) ↔
      Steps r.scheduler op ∧ EveryCycleSteps (r.next (op, m)) rest := by
  constructor
  · intro h
    refine ⟨h [] op m rest rfl, fun before op' m' after heq => ?_⟩
    exact h ((op, m) :: before) op' m' after (by rw [heq, List.cons_append])
  · rintro ⟨hfirst, hrest⟩ before op' m' after heq
    cases before with
    | nil =>
      cases heq
      exact hfirst
    | cons first before =>
      rw [List.cons_append] at heq
      cases heq
      exact hrest before op' m' after rfl

/-- From a sound state all frames of a run are numbered exactly when all its cycles step. -/
theorem Sound.numbered_run_iff {r : Recorded n} (h : r.Sound)
    (ops : List (Operation × CycleMeasurements)) :
    (r.run ops).Numbered ↔ EveryCycleSteps r ops ∧ (r.run ops).called < 2 ^ 64 := by
  induction ops generalizing r with
  | nil =>
    refine ⟨fun _ => ⟨fun before op m after heq => ?_, h.count ▸ r.scheduler.cycleCount.isLt⟩,
      fun _ => h.numbered⟩
    exact absurd heq.symm (List.append_ne_nil_of_right_ne_nil before (List.cons_ne_nil _ _))
  | cons first rest ih =>
    obtain ⟨op, m⟩ := first
    have hnext := h.next op m
    show ((r.next (op, m)).run rest).Numbered ↔ _ ∧ ((r.next (op, m)).run rest).called < 2 ^ 64
    rw [everyCycleSteps_cons]
    constructor
    · intro hnumbered
      obtain ⟨hsteps, hlt⟩ := hnext.1 hnumbered.of_run
      have hrest := (ih (hnext.2 hsteps hlt)).mp hnumbered
      exact ⟨⟨hsteps, hrest.1⟩, hrest.2⟩
    · rintro ⟨⟨hsteps, hrest⟩, hlt⟩
      have hcalled := ((r.next (op, m)).run_grows rest).2
      exact (ih (hnext.2 hsteps (Nat.lt_of_le_of_lt hcalled hlt))).mpr ⟨hrest, hlt⟩

/-- In every run of the scheduler, with any recorder, all frames have the number of the cycle that
they describe exactly when every call of `runCycle` in RUN finds the watchdog quiet and gets its
outputs from the logic, and there are fewer than `2 ^ 64` of them. -/
theorem numbered_iff (config : RuntimeConfig) (watchdog : Option Watchdog)
    (recorder : FaultRecorder n) (ops : List (Operation × CycleMeasurements)) :
    ((new config watchdog recorder).run ops).Numbered ↔
      EveryCycleSteps (new config watchdog recorder) ops ∧
        ((new config watchdog recorder).run ops).called < 2 ^ 64 :=
  (sound_new config watchdog recorder).numbered_run_iff ops

/-- The first cycle completes, the second one traps: the fault is recorded with the number 1 as
well. -/
theorem secondCycle_misnumbered :
    ∃ recorder : FaultRecorder (max 64 1), FaultRecorder.new 64 0 = some recorder ∧
      ¬ ((new ⟨10000000, 1000000, ⟨.fault, .allOff, ⟨3, 5⟩⟩⟩ none recorder).run
        [(.init (.ok ()), ⟨0, 0, 0, 0, 0⟩), (.start (.ok ()), ⟨0, 0, 0, 0, 0⟩),
          (.runCycle ⟨false, fun _ => .ok .zero, 0⟩, ⟨0, 0, 0, 0, 0⟩),
          (.runCycle ⟨false, fun _ => .error (.wasmTrap "unreachable"), 0⟩,
            ⟨0, 0, 0, 0, 0⟩)]).Numbered := by
  obtain ⟨recorder, hrecorder⟩ := FaultRecorder.exists_new 64 0 (by decide)
  refine ⟨recorder, hrecorder, fun hnumbered => ?_⟩
  have hcycle := hnumbered 2 (.recordFault 0 1 .logicError ⟨0, 0, 0, 0, 0⟩) 1
    (List.mem_cons_of_mem _ (List.mem_singleton.mpr rfl)) rfl
  exact absurd hcycle (by decide)

end Recorded

end VirtualPlc.Runtime

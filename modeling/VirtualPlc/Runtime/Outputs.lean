import VirtualPlc.Runtime.Scheduler

/-!
# What the scheduler publishes

`published_eq`: after any operations on the scheduler, the published outputs are those of the last
successful step, or the safe image if outputs have been made safe since then.
-/

set_option autoImplicit false

namespace VirtualPlc.Runtime

/-- A moment that decides about the outputs: a successful step, or the end of `enterFault` or
`stop`. -/
inductive Moment where
  | stepped (outputs : FieldbusOutputs)
  | safe
deriving DecidableEq, Repr

/-- Outputs of the last successful step, zero before the first. -/
def held (past : List Moment) : FieldbusOutputs :=
  past.foldl (fun outputs moment =>
    match moment with
    | .stepped outputs => outputs
    | .safe => outputs) .zero

@[simp] theorem held_nil : held [] = .zero := rfl

@[simp] theorem held_stepped (past : List Moment) (outputs : FieldbusOutputs) :
    held (past ++ [.stepped outputs]) = outputs := by
  simp [held]

@[simp] theorem held_safe (past : List Moment) : held (past ++ [.safe]) = held past := by
  simp [held]

/-- The safe output image: off, the outputs of the last successful step, or the configured values.
-/
def SafeOutputPolicy.safeImage (policy : SafeOutputPolicy) (last : FieldbusOutputs) :
    FieldbusOutputs :=
  match policy with
  | .allOff => .zero
  | .holdLast => last
  | .userDefined digital analog => ⟨digital.headD 0, copyUpTo 16 analog⟩

/-- What should be published after some moments. -/
def SafeOutputPolicy.expected (policy : SafeOutputPolicy) (past : List Moment) : FieldbusOutputs :=
  match past.getLast? with
  | some .safe => policy.safeImage (held past)
  | _ => held past

@[simp] theorem expected_nil (policy : SafeOutputPolicy) : policy.expected [] = .zero := rfl

@[simp] theorem expected_stepped (policy : SafeOutputPolicy) (past : List Moment)
    (outputs : FieldbusOutputs) : policy.expected (past ++ [.stepped outputs]) = outputs := by
  simp [SafeOutputPolicy.expected]

@[simp] theorem expected_safe (policy : SafeOutputPolicy) (past : List Moment) :
    policy.expected (past ++ [.safe]) = policy.safeImage (held past) := by
  simp [SafeOutputPolicy.expected]

@[simp] theorem fieldbusOutputs_outputs (policy : SafeOutputPolicy) (last : ProcessData) :
    (policy.outputs last).fieldbusOutputs = policy.safeImage last.fieldbusOutputs := by
  cases policy with
  | allOff => exact ProcessData.fieldbusOutputs_zero
  | holdLast => rfl
  | userDefined digital analog =>
    cases digital <;> simp [SafeOutputPolicy.outputs, SafeOutputPolicy.safeImage,
      ProcessData.fieldbusOutputs, copyUpTo]

/-! ## Operations -/

/-- A call of the engine as a moment: only `enterFault` calls the engine's `fault`. -/
def EngineCall.moment : EngineCall → Option Moment
  | .step _ (.ok outputs) => some (.stepped outputs.fieldbusOutputs)
  | .fault => some .safe
  | .init _ | .step _ (.error _) => none

/-- Outputs of the last successful step of the engine. -/
def Scheduler.lastStep (s : Scheduler) : FieldbusOutputs :=
  held (s.engine.filterMap EngineCall.moment)

/-- Operations on a scheduler, with what they find outside it. The inputs are written by others. -/
inductive Operation where
  | init (result : PlcResult Unit)
  | start (spawn : Except String Unit)
  | runCycle (events : CycleEvents)
  | enterFault
  | stop
  | writeInputs (f : ProcessData → ProcessData)

/-- The scheduler after an operation. -/
def Operation.apply (s : Scheduler) : Operation → Scheduler
  | .init result => (s.initializeScheduler result).2
  | .start spawn => (s.start spawn).2
  | .runCycle events => (s.runCycle events).2
  | .enterFault => s.enterFault
  | .stop => s.stop.2
  | .writeInputs f => { s with io := s.io.writeInputs f }

/-- The moments of a cycle: outside RUN there is none, a watchdog that has triggered makes the
outputs safe before the step, and a step that fails or overruns too much makes them safe after it.
-/
def CycleEvents.moments (s : Scheduler) (events : CycleEvents) : List Moment :=
  if s.state.current ≠ .run then []
  else if s.watchdogTriggered events.timedOut then [.safe]
  else
    match events.step s.io.readInputs with
    | .error _ => [.safe]
    | .ok outputs =>
      if s.criticalOverrun events.executionTime then [.stepped outputs.fieldbusOutputs, .safe]
      else [.stepped outputs.fieldbusOutputs]

/-- The moments of an operation, by the state that it finds and what it meets outside. -/
def Operation.moments (s : Scheduler) : Operation → List Moment
  | .init _ | .start _ | .writeInputs _ => []
  | .runCycle events => events.moments s
  | .enterFault | .stop => [.safe]

/-- A scheduler together with the moments of its past. -/
structure Watched where
  scheduler : Scheduler
  past : List Moment

/-- The next operation. -/
def Watched.next (w : Watched) (op : Operation) : Watched :=
  ⟨op.apply w.scheduler, w.past ++ op.moments w.scheduler⟩

/-- A new scheduler, with or without a watchdog, after some operations. -/
def watch (config : RuntimeConfig) (watchdog : Option Watchdog) (ops : List Operation) : Watched :=
  ops.foldl Watched.next ⟨{ Scheduler.new config with watchdog := watchdog }, []⟩

/-! ## The invariant -/

/-- The published outputs, the remembered ones and the policy agree with the past. -/
structure Watched.Shown (policy : SafeOutputPolicy) (w : Watched) : Prop where
  published : w.scheduler.io.readOutputs.fieldbusOutputs = policy.expected w.past
  remembered : w.scheduler.lastOutputs.fieldbusOutputs = held w.past
  policy_eq : w.scheduler.faultPolicy.safeOutputs = policy

namespace Scheduler

/-- Safe outputs are the safe image of the remembered outputs. -/
theorem setSafeOutputs_published (s : Scheduler) :
    s.setSafeOutputs.io.readOutputs.fieldbusOutputs =
      s.faultPolicy.safeOutputs.safeImage s.lastOutputs.fieldbusOutputs := by
  simp only [setSafeOutputs, IoImage.fieldbusOutputs_writeOutputs, fieldbusOutputs_outputs]

theorem publish_published (s : Scheduler) (outputs : ProcessData) :
    (s.publish outputs).io.readOutputs.fieldbusOutputs = outputs.fieldbusOutputs := by
  simp only [publish, IoImage.fieldbusOutputs_writeOutputs]

theorem lastStep_asked_ok (s : Scheduler) (inputs outputs : ProcessData) :
    (s.asked inputs (.ok outputs)).lastStep = outputs.fieldbusOutputs := by
  simp [lastStep, EngineCall.moment]

theorem lastStep_asked_error (s : Scheduler) (inputs : ProcessData) (e : PlcError) :
    (s.asked inputs (.error e)).lastStep = s.lastStep := by
  simp [lastStep, EngineCall.moment, List.filterMap_cons]

@[simp] theorem lastStep_enterFault (s : Scheduler) : s.enterFault.lastStep = s.lastStep := by
  simp [lastStep, EngineCall.moment]

@[simp] theorem lastStep_publish (s : Scheduler) (outputs : ProcessData) :
    (s.publish outputs).lastStep = s.lastStep := rfl

/-- A stop leaves the engine and the policy alone. -/
theorem stop_engine_faultPolicy (s : Scheduler) :
    s.stop.2.engine = s.engine ∧ s.stop.2.faultPolicy = s.faultPolicy := by
  unfold stop
  dsimp only
  split
  · cases s.state.transition .safeStop <;> exact ⟨rfl, rfl⟩
  · exact ⟨rfl, rfl⟩

@[simp] theorem stop_faultPolicy (s : Scheduler) : s.stop.2.faultPolicy = s.faultPolicy :=
  s.stop_engine_faultPolicy.2

@[simp] theorem lastStep_stop (s : Scheduler) : s.stop.2.lastStep = s.lastStep := by
  simp only [lastStep, s.stop_engine_faultPolicy.1]

theorem publish_remembered (s : Scheduler) (outputs : ProcessData) :
    (s.publish outputs).lastOutputs.fieldbusOutputs = outputs.fieldbusOutputs := rfl

end Scheduler

namespace Watched

variable {policy : SafeOutputPolicy} {s : Scheduler} {past : List Moment}

theorem shown_new (config : RuntimeConfig) (watchdog : Option Watchdog) :
    Shown config.faultPolicy.safeOutputs
      ⟨{ Scheduler.new config with watchdog := watchdog }, []⟩ where
  published := ProcessData.fieldbusOutputs_zero
  remembered := ProcessData.fieldbusOutputs_zero
  policy_eq := rfl

/-- Nothing that the outputs depend on changes. -/
structure Quiet (s s' : Scheduler) : Prop where
  outputs : s'.io.outputs = s.io.outputs
  lastOutputs : s'.lastOutputs = s.lastOutputs
  faultPolicy : s'.faultPolicy = s.faultPolicy
  engine : ∃ calls, s'.engine = s.engine ++ calls ∧ calls.filterMap EngineCall.moment = []

theorem Quiet.refl (s : Scheduler) : Quiet s s := ⟨rfl, rfl, rfl, [], by simp⟩

theorem Shown.quiet {s' : Scheduler} (h : Shown policy ⟨s, past⟩) (hq : Quiet s s') :
    Shown policy ⟨s', past⟩ where
  published := by
    have hread : s'.io.readOutputs = s.io.readOutputs := congrArg SeqlockBuffer.read hq.outputs
    simpa only [hread] using h.published
  remembered := by simpa only [hq.lastOutputs] using h.remembered
  policy_eq := by simpa only [hq.faultPolicy] using h.policy_eq

theorem quiet_init (s : Scheduler) (result : PlcResult Unit) :
    Quiet s (s.initializeScheduler result).2 := by
  unfold Scheduler.initializeScheduler
  cases s.state.transition .init with
  | error e => exact Quiet.refl s
  | ok state =>
    have hcall : [EngineCall.init result].filterMap EngineCall.moment = [] := rfl
    cases result with
    | error e => exact ⟨rfl, rfl, rfl, _, rfl, hcall⟩
    | ok u =>
      simp only
      cases state.transition .preOp with
      | error e => exact ⟨rfl, rfl, rfl, _, rfl, hcall⟩
      | ok state' => exact ⟨rfl, rfl, rfl, _, rfl, hcall⟩

theorem quiet_startWatchdog (s : Scheduler) (spawn : Except String Unit) :
    Quiet s (s.startWatchdog spawn).2 := by
  unfold Scheduler.startWatchdog
  cases s.watchdog with
  | none => exact Quiet.refl s
  | some wd => exact ⟨rfl, rfl, rfl, [], by simp⟩

theorem quiet_start (s : Scheduler) (spawn : Except String Unit) :
    Quiet s (s.start spawn).2 := by
  unfold Scheduler.start
  split
  · exact Quiet.refl s
  · have hwd := quiet_startWatchdog s spawn
    generalize s.startWatchdog spawn = answer at hwd ⊢
    obtain ⟨result, s'⟩ := answer
    cases result with
    | error e => exact hwd
    | ok u =>
      simp only
      cases s'.state.transition .run with
      | error e => exact hwd
      | ok state => exact ⟨hwd.outputs, hwd.lastOutputs, hwd.faultPolicy, hwd.engine⟩

theorem Shown.setSafeOutputs (h : Shown policy ⟨s, past⟩) :
    Shown policy ⟨s.setSafeOutputs, past ++ [.safe]⟩ where
  published := by
    have hpolicy : s.faultPolicy.safeOutputs = policy := h.policy_eq
    have hlast : s.lastOutputs.fieldbusOutputs = held past := h.remembered
    rw [expected_safe, s.setSafeOutputs_published, hpolicy, hlast]
  remembered := by
    rw [held_safe]
    exact h.remembered
  policy_eq := h.policy_eq

theorem Shown.enterFault (h : Shown policy ⟨s, past⟩) :
    Shown policy ⟨s.enterFault, past ++ [.safe]⟩ := by
  have hstate : Shown policy ⟨{ s with state := s.state.enterFault }, past⟩ :=
    h.quiet ⟨rfl, rfl, rfl, [], by simp⟩
  exact ⟨hstate.setSafeOutputs.published, hstate.setSafeOutputs.remembered, h.policy_eq⟩

theorem Shown.publish (h : Shown policy ⟨s, past⟩) (outputs : ProcessData) :
    Shown policy ⟨s.publish outputs, past ++ [.stepped outputs.fieldbusOutputs]⟩ where
  published := by rw [expected_stepped, s.publish_published]
  remembered := by rw [held_stepped, s.publish_remembered]
  policy_eq := h.policy_eq

theorem Shown.stop (h : Shown policy ⟨s, past⟩) :
    Shown policy (Watched.next ⟨s, past⟩ .stop) := by
  have hwd : Shown policy ⟨{ s with watchdog := s.watchdog.map Watchdog.stop }, past⟩ :=
    h.quiet ⟨rfl, rfl, rfl, [], by simp⟩
  -- the transition from RUN to SAFE_STOP is always allowed
  by_cases hrun : s.state.current = .run
  · have hstop : s.state.transition .safeStop = .ok (s.state.enter .safeStop) := by
      simp [StateMachine.transition, hrun, RuntimeState.canTransitionTo]
    have hentered : Shown policy ⟨{ s with
        watchdog := s.watchdog.map Watchdog.stop
        state := s.state.enter .safeStop }, past⟩ := hwd.quiet ⟨rfl, rfl, rfl, [], by simp⟩
    have hstate := hentered.setSafeOutputs
    simpa [Watched.next, Operation.apply, Operation.moments, Scheduler.stop, hrun, hstop]
      using hstate
  · simpa [Watched.next, Operation.apply, Operation.moments, Scheduler.stop, hrun]
      using hwd.setSafeOutputs

theorem Shown.runCycle (h : Shown policy ⟨s, past⟩) (events : CycleEvents) :
    Shown policy (Watched.next ⟨s, past⟩ (.runCycle events)) := by
  have hasked : ∀ result, Shown policy ⟨s.asked s.io.readInputs result, past⟩ :=
    fun result => ⟨h.published, h.remembered, h.policy_eq⟩
  show Shown policy ⟨(s.runCycle events).2, past ++ events.moments s⟩
  cases s.runCycle_cases events with
  | refused hstate heq =>
    rw [heq, CycleEvents.moments, if_pos hstate, List.append_nil]
    exact h
  | timeout hstate hwd heq =>
    rw [heq, CycleEvents.moments, if_neg (not_not.mpr hstate), if_pos hwd]
    exact h.enterFault
  | failed hstate hwd e hstep heq =>
    rw [heq, CycleEvents.moments, if_neg (not_not.mpr hstate), hwd,
      if_neg Bool.false_ne_true, hstep]
    exact (hasked (.error e)).enterFault
  | overrun hstate hwd outputs hstep htime heq =>
    rw [heq, CycleEvents.moments, if_neg (not_not.mpr hstate), hwd,
      if_neg Bool.false_ne_true, hstep]
    -- the step succeeds first, and its outputs are made safe afterwards
    have hfault := ((hasked (.ok outputs)).publish outputs).enterFault
    rw [List.append_assoc] at hfault
    dsimp only
    rw [if_pos htime]
    exact hfault
  | completed hstate hwd outputs hstep htime heq =>
    rw [heq, CycleEvents.moments, if_neg (not_not.mpr hstate), hwd,
      if_neg Bool.false_ne_true, hstep]
    dsimp only
    rw [if_neg htime]
    exact (hasked (.ok outputs)).publish outputs

/-- Every operation keeps the invariant. -/
theorem Shown.next {w : Watched} (h : w.Shown policy) (op : Operation) :
    (w.next op).Shown policy := by
  obtain ⟨s, past⟩ := w
  -- an operation without a moment leaves the past as it is
  have hquiet : ∀ s', Quiet s s' → Shown policy ⟨s', past ++ []⟩ := by
    intro s' hq
    rw [List.append_nil]
    exact h.quiet hq
  cases op with
  | init result => exact hquiet _ (quiet_init s result)
  | start spawn => exact hquiet _ (quiet_start s spawn)
  | runCycle events => exact h.runCycle events
  | enterFault => exact h.enterFault
  | stop => exact h.stop
  | writeInputs f => exact hquiet { s with io := s.io.writeInputs f } ⟨rfl, rfl, rfl, [], by simp⟩

end Watched

/-- A cycle outside RUN changes nothing. -/
theorem runCycle_refused {s : Scheduler} (events : CycleEvents) (h : s.state.current ≠ .run) :
    (s.runCycle events).2 = s := by
  cases s.runCycle_cases events with
  | refused _ heq => rw [heq]
  | timeout hstate | failed hstate | overrun hstate | completed hstate => exact absurd hstate h

/-- After any operations, the published outputs are those of the last successful step, or the safe
image if outputs have been made safe since then. A cycle outside RUN changes nothing. -/
theorem published_eq (config : RuntimeConfig) (watchdog : Option Watchdog) (ops : List Operation) :
    (watch config watchdog ops).scheduler.io.readOutputs.fieldbusOutputs =
        config.faultPolicy.safeOutputs.expected (watch config watchdog ops).past ∧
      ∀ events, (watch config watchdog ops).scheduler.state.current ≠ .run →
        ((watch config watchdog ops).scheduler.runCycle events).2 =
          (watch config watchdog ops).scheduler := by
  have hshown : (watch config watchdog ops).Shown config.faultPolicy.safeOutputs := by
    induction ops using List.reverseRecOn with
    | nil => exact Watched.shown_new config watchdog
    | append_singleton ops op ih =>
      simp only [watch, List.foldl_append, List.foldl_cons, List.foldl_nil] at ih ⊢
      exact ih.next op
  exact ⟨hshown.published, fun events hstate => runCycle_refused events hstate⟩

end VirtualPlc.Runtime

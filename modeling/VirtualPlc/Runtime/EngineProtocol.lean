import Mathlib.Data.List.Chain
import VirtualPlc.Control.Protocols
import VirtualPlc.Runtime.Recovery

/-!
# The scheduler and its engine

`Progress` says once what an operation on the scheduler does to the lifecycle and which calls it
makes to the logic engine. From it follow, over every run: the engine is called in the order of its
protocol (`engine_protocol`), the lifecycle goes along allowed transitions that are counted one by
one (`lifecycle_path`), and a stop is final (`stop_final`).
-/

set_option autoImplicit false

namespace VirtualPlc.Runtime

open VirtualPlc.Control

/-- What an operation can do to the lifecycle and to the calls of the engine. -/
inductive Progress (s s' : Scheduler) : Prop where
  | same (hengine : s'.engine = s.engine) (hstate : s'.state = s.state)
  | initFailed (hfrom : s.state.current.canTransitionTo .init = true) (e : PlcError)
      (hengine : s'.engine = s.engine ++ [.init (.error e)])
      (hstate : s'.state = s.state.enter .init)
  | initialised (hfrom : s.state.current.canTransitionTo .init = true)
      (hengine : s'.engine = s.engine ++ [.init (.ok ())])
      (hstate : s'.state = (s.state.enter .init).enter .preOp)
  | started (hfrom : s.state.current = .preOp) (hengine : s'.engine = s.engine)
      (hstate : s'.state = s.state.enter .run)
  | stepped (hfrom : s.state.current = .run) (inputs outputs : ProcessData)
      (hengine : s'.engine = s.engine ++ [.step inputs (.ok outputs)]) (hstate : s'.state = s.state)
  | stepFaulted (hfrom : s.state.current = .run) (inputs : ProcessData)
      (result : PlcResult ProcessData)
      (hengine : s'.engine = s.engine ++ [.step inputs result, .fault])
      (hstate : s'.state = s.state.enter .fault)
  | faulted (hengine : s'.engine = s.engine ++ [.fault]) (hstate : s'.state = s.state.enterFault)
  | stopped (hfrom : s.state.current = .run) (hengine : s'.engine = s.engine)
      (hstate : s'.state = s.state.enter .safeStop)

namespace Scheduler

variable {s : Scheduler}

theorem enterFault_of_run (h : s.state.current = .run) :
    s.state.enterFault = s.state.enter .fault := by
  rw [StateMachine.enterFault, h]
  rfl

/-- An initialisation is refused, or asks the engine and goes as far as it answers. -/
theorem initializeScheduler_cases (s : Scheduler) (result : PlcResult Unit) :
    (s.initializeScheduler result).2 = s ∨
      s.state.current.canTransitionTo .init = true ∧
        ∃ state, (s.initializeScheduler result).2 =
            { s with state := state, engine := s.engine ++ [.init result] } ∧
          ((∃ e, result = .error e ∧ state = s.state.enter .init) ∨
            result = .ok () ∧ state = (s.state.enter .init).enter .preOp) := by
  by_cases hfrom : s.state.current.canTransitionTo .init = true
  · have hinit : s.state.transition .init = .ok (s.state.enter .init) := if_pos hfrom
    refine .inr ⟨hfrom, ?_⟩
    cases result with
    | error e =>
      rw [initializeScheduler, hinit]
      exact ⟨_, rfl, .inl ⟨e, rfl, rfl⟩⟩
    | ok u =>
      rw [initializeScheduler, hinit]
      exact ⟨_, rfl, .inr ⟨rfl, rfl⟩⟩
  · have hinit : s.state.transition .init =
        .error (.invalidStateTransition s.state.current.display RuntimeState.init.display) :=
      if_neg hfrom
    rw [initializeScheduler, hinit]
    exact .inl rfl

theorem progress_init (s : Scheduler) (result : PlcResult Unit) :
    Progress s (s.initializeScheduler result).2 := by
  rcases s.initializeScheduler_cases result with heq | ⟨hfrom, state, heq, hresult⟩
  · rw [heq]
    exact .same rfl rfl
  · rw [heq]
    rcases hresult with ⟨e, rfl, rfl⟩ | ⟨rfl, rfl⟩
    · exact .initFailed hfrom e rfl rfl
    · exact .initialised hfrom rfl rfl

/-- A start changes the watchdog, and goes from PRE_OP to RUN where it succeeds. -/
theorem start_cases (s : Scheduler) (spawn : Except String Unit) :
    ∃ watchdog state, (s.start spawn).2 = { s with watchdog := watchdog, state := state } ∧
      (state = s.state ∨ s.state.current = .preOp ∧ state = s.state.enter .run) := by
  rw [start]
  split
  · exact ⟨s.watchdog, s.state, rfl, .inl rfl⟩
  · next hpre =>
    rw [not_not] at hpre
    have hstart : ∃ watchdog, (s.startWatchdog spawn).2 = { s with watchdog := watchdog } := by
      rw [startWatchdog]
      split
      · exact ⟨s.watchdog, rfl⟩
      · exact ⟨_, rfl⟩
    obtain ⟨watchdog, hwatchdog⟩ := hstart
    split
    · next _ s' hs =>
      rw [hs] at hwatchdog
      exact ⟨watchdog, s.state, hwatchdog, .inl rfl⟩
    · next s' hs =>
      rw [hs] at hwatchdog
      obtain rfl : s' = { s with watchdog := watchdog } := hwatchdog
      have hrun : s.state.transition .run = .ok (s.state.enter .run) := by
        rw [StateMachine.transition, hpre]
        rfl
      rw [show ({ s with watchdog := watchdog } : Scheduler).state.transition .run = _ from hrun]
      exact ⟨watchdog, s.state.enter .run, rfl, .inr ⟨hpre, rfl⟩⟩

theorem progress_start (s : Scheduler) (spawn : Except String Unit) :
    Progress s (s.start spawn).2 := by
  obtain ⟨watchdog, state, heq, rfl | ⟨hpre, rfl⟩⟩ := s.start_cases spawn
  · rw [heq]
    exact .same rfl rfl
  · rw [heq]
    exact .started hpre rfl rfl

theorem progress_runCycle (s : Scheduler) (events : CycleEvents) :
    Progress s (s.runCycle events).2 := by
  cases s.runCycle_cases events with
  | refused _ heq =>
    rw [heq]
    exact .same rfl rfl
  | timeout _ _ heq =>
    rw [heq]
    exact .faulted rfl rfl
  | failed hrun _ e _ heq =>
    rw [heq]
    exact .stepFaulted hrun s.io.readInputs (.error e) (by simp) (enterFault_of_run hrun)
  | overrun hrun _ outputs _ _ heq =>
    rw [heq]
    exact .stepFaulted hrun s.io.readInputs (.ok outputs) (by simp) (enterFault_of_run hrun)
  | completed hrun _ outputs _ _ heq =>
    rw [heq]
    exact .stepped hrun s.io.readInputs outputs rfl rfl

/-- A stop changes the watchdog and the outputs, and leaves RUN. -/
theorem stop_cases (s : Scheduler) :
    ∃ watchdog io state, s.stop.2 = { s with watchdog := watchdog, io := io, state := state } ∧
      (state = s.state ∨ s.state.current = .run ∧ state = s.state.enter .safeStop) := by
  by_cases hrun : s.state.current = .run
  · have hstop : s.state.transition .safeStop = .ok (s.state.enter .safeStop) := by
      rw [StateMachine.transition, hrun]
      rfl
    rw [stop]
    simp only [hrun, if_true, hstop]
    exact ⟨_, _, _, rfl, .inr ⟨trivial, rfl⟩⟩
  · rw [stop]
    simp only [hrun, if_false]
    exact ⟨_, _, _, rfl, .inl rfl⟩

theorem progress_stop (s : Scheduler) : Progress s s.stop.2 := by
  obtain ⟨watchdog, io, state, heq, rfl | ⟨hrun, rfl⟩⟩ := s.stop_cases
  · rw [heq]
    exact .same rfl rfl
  · rw [heq]
    exact .stopped hrun rfl rfl

/-- Every operation makes one of these steps. -/
theorem progress_apply (s : Scheduler) (op : Operation) : Progress s (op.apply s) := by
  cases op with
  | init result => exact s.progress_init result
  | start spawn => exact s.progress_start spawn
  | runCycle events => exact s.progress_runCycle events
  | enterFault => exact .faulted rfl rfl
  | stop => exact s.progress_stop
  | writeInputs f => exact .same rfl rfl

end Scheduler

/-! ## The protocol of the engine -/

/-- Where the engine stands: it waits for an `init`, it can be stepped, or a step of it has failed.
-/
inductive EngineMode where
  | resting
  | ready
  | failed
deriving DecidableEq, Repr

/-- An engine is stepped only after an `init` that has succeeded, not initialised again before it
has been told of a fault, and told of the fault at once when a step fails. -/
def engineProtocol : Acceptor EngineCall EngineMode where
  start := .resting
  step
    | .resting, .init (.ok ()) => some .ready
    | .resting, .init (.error _) => some .resting
    | .ready, .step _ (.ok _) => some .ready
    | .ready, .step _ (.error _) => some .failed
    | _, .fault => some .resting
    | _, _ => none

/-- The mode of the engine in a state of the lifecycle. -/
def EngineMode.Fits (mode : EngineMode) : RuntimeState → Prop
  | .preOp | .run => mode = .ready
  | .boot | .init | .fault => mode = .resting
  | .safeStop => mode ≠ .failed

/-- The engine has been called as its protocol says. -/
abbrev FollowsEngine : Scheduler → Prop :=
  engineProtocol.Follows Scheduler.engine fun s mode => mode.Fits s.state.current

theorem followsEngine_new (config : RuntimeConfig) (watchdog : Option Watchdog) :
    FollowsEngine { Scheduler.new config with watchdog := watchdog } := ⟨.resting, rfl, rfl⟩

theorem resting_of_init {mode : EngineMode} {state : RuntimeState}
    (h : mode.Fits state) (hfrom : state.canTransitionTo .init = true) : mode = .resting := by
  cases state with
  | boot | fault => exact h
  | init | preOp | run | safeStop => cases hfrom

theorem fits_enterFault (sm : StateMachine) : EngineMode.Fits .resting sm.enterFault.current := by
  obtain ⟨current, previous, count⟩ := sm
  cases current with
  | boot | init | preOp | run | fault => rfl
  | safeStop => exact EngineMode.noConfusion

/-- Every operation keeps to the protocol. -/
theorem FollowsEngine.next {s : Scheduler} (h : FollowsEngine s) (op : Operation) :
    FollowsEngine (op.apply s) := by
  cases s.progress_apply op with
  | same hengine hstate =>
    apply h.step (hengine.trans (List.append_nil _).symm)
    intro mode hmode
    exact ⟨mode, rfl, by rwa [hstate]⟩
  | initFailed hfrom e hengine hstate =>
    apply h.step hengine
    intro mode hmode
    obtain rfl := resting_of_init hmode hfrom
    exact ⟨.resting, rfl, by rw [hstate]; rfl⟩
  | initialised hfrom hengine hstate =>
    apply h.step hengine
    intro mode hmode
    obtain rfl := resting_of_init hmode hfrom
    exact ⟨.ready, rfl, by rw [hstate]; rfl⟩
  | started hfrom hengine hstate =>
    apply h.step (hengine.trans (List.append_nil _).symm)
    intro mode hmode
    rw [hfrom] at hmode
    exact ⟨mode, rfl, by rw [hstate]; exact hmode⟩
  | stepped hfrom inputs outputs hengine hstate =>
    apply h.step hengine
    intro mode hmode
    rw [hfrom] at hmode
    obtain rfl : mode = .ready := hmode
    exact ⟨.ready, rfl, by rw [hstate, hfrom]; rfl⟩
  | stepFaulted hfrom inputs result hengine hstate =>
    apply h.step hengine
    intro mode hmode
    rw [hfrom] at hmode
    obtain rfl : mode = .ready := hmode
    -- the step is followed by the fault of the engine, whatever its result
    refine ⟨.resting, ?_, by rw [hstate]; rfl⟩
    cases result with
    | error e => rfl
    | ok outputs => rfl
  | faulted hengine hstate =>
    apply h.step hengine
    intro mode _
    exact ⟨.resting, by cases mode <;> rfl, by rw [hstate]; exact fits_enterFault s.state⟩
  | stopped hfrom hengine hstate =>
    apply h.step (hengine.trans (List.append_nil _).symm)
    intro mode hmode
    rw [hfrom] at hmode
    obtain rfl : mode = .ready := hmode
    exact ⟨.ready, rfl, by rw [hstate]; exact EngineMode.noConfusion⟩

theorem followsEngine_watch (config : RuntimeConfig) (watchdog : Option Watchdog)
    (ops : List Operation) : FollowsEngine (watch config watchdog ops).scheduler := by
  rw [watch, foldl_next_scheduler]
  exact Acceptor.follows_run (fun s op h => FollowsEngine.next h op)
    (followsEngine_new config watchdog) ops

/-- An engine that is ready has just been initialised or stepped with success. -/
theorem getLast_of_ready {calls : List EngineCall} (h : engineProtocol.after calls = some .ready) :
    calls.getLast? = some (.init (.ok ())) ∨
      ∃ inputs outputs, calls.getLast? = some (.step inputs (.ok outputs)) := by
  induction calls using List.reverseRecOn with
  | nil => cases h
  | append_singleton calls call _ =>
    rw [List.getLast?_concat]
    rw [Acceptor.after_append] at h
    obtain ⟨mode, -, hlast⟩ := Option.bind_eq_some_iff.1 h
    obtain ⟨mode', hstep, hmode⟩ := Option.bind_eq_some_iff.1 hlast
    obtain rfl : mode' = .ready := Option.some.inj hmode
    cases call with
    | init result =>
      cases result with
      | ok u => exact .inl rfl
      | error e => cases mode <;> cases hstep
    | step inputs result =>
      cases result with
      | ok outputs => exact .inr ⟨inputs, outputs, rfl⟩
      | error e => cases mode <;> cases hstep
    | fault => cases mode <;> cases hstep

/-- In every run of the scheduler its engine is called in the order of the protocol. So each step
comes right after an `init` or a step that has succeeded, and a step that fails is followed at once
by the engine's `fault`. -/
theorem engine_protocol (config : RuntimeConfig) (watchdog : Option Watchdog)
    (ops : List Operation) :
    (∃ mode, engineProtocol.after (watch config watchdog ops).scheduler.engine = some mode ∧
        mode.Fits (watch config watchdog ops).scheduler.state.current) ∧
      ∀ before inputs result later,
        (watch config watchdog ops).scheduler.engine = before ++ .step inputs result :: later →
          (before.getLast? = some (.init (.ok ())) ∨
            ∃ i o, before.getLast? = some (.step i (.ok o))) ∧
          ∀ e, result = .error e → later.head? = some .fault := by
  obtain ⟨mode, hafter, hfits⟩ := followsEngine_watch config watchdog ops
  refine ⟨⟨mode, hafter, hfits⟩, ?_⟩
  intro before inputs result later hsplit
  rw [hsplit] at hafter
  obtain ⟨mode₀, hbefore, hrest⟩ := engineProtocol.after_of_append hafter
  rw [Acceptor.reads_cons] at hrest
  obtain ⟨mode₁, hstep, hlater⟩ := Option.bind_eq_some_iff.1 hrest
  have hready : mode₀ = .ready := by
    cases mode₀ with
    | ready => rfl
    | resting | failed => cases hstep
  subst hready
  refine ⟨getLast_of_ready hbefore, ?_⟩
  rintro e rfl
  obtain rfl : .failed = mode₁ := Option.some.inj hstep
  cases later with
  | nil =>
    -- no operation ends with a step that has failed
    obtain rfl : .failed = mode := Option.some.inj hlater
    cases hstate : (watch config watchdog ops).scheduler.state.current with
    | safeStop =>
      rw [hstate] at hfits
      exact absurd rfl hfits
    | boot | init | preOp | run | fault =>
      rw [hstate] at hfits
      cases hfits
  | cons call calls =>
    rw [Acceptor.reads_cons] at hlater
    obtain ⟨mode₂, hcall, -⟩ := Option.bind_eq_some_iff.1 hlater
    cases call with
    | fault => rfl
    | init _ | step _ _ => cases hcall

/-! ## The lifecycle -/

/-- The states that the machine has left, in order. -/
structure Traced (sm : StateMachine) (past : List RuntimeState) : Prop where
  boot : (past ++ [sm.current]).head? = some .boot
  chain : (past ++ [sm.current]).IsChain fun a b => a.canTransitionTo b = true
  count : sm.transitionCount = BitVec.ofNat 64 past.length
  previous : sm.previous = past.getLast?
  final : RuntimeState.safeStop ∉ past

theorem traced_new : Traced .new [] := ⟨rfl, .singleton _, rfl, rfl, List.not_mem_nil⟩

/-- An allowed transition out of a state other than SAFE_STOP. -/
theorem Traced.enter {sm : StateMachine} {past : List RuntimeState} (h : Traced sm past)
    {target : RuntimeState} (hallowed : sm.current.canTransitionTo target = true)
    (hleft : sm.current ≠ .safeStop) : Traced (sm.enter target) (past ++ [sm.current]) where
  boot := by
    rw [StateMachine.enter_current, List.head?_append, h.boot]
    rfl
  chain := by
    rw [StateMachine.enter_current, List.append_assoc]
    exact List.isChain_append_cons_cons.2 ⟨h.chain, hallowed, .singleton _⟩
  count := by
    show sm.transitionCount + 1 = _
    rw [h.count, List.length_append, List.length_singleton, BitVec.ofNat_add]
    rfl
  previous := List.getLast?_concat.symm
  final := by
    rw [List.mem_append, List.mem_singleton, not_or]
    exact ⟨h.final, fun heq => hleft heq.symm⟩

theorem Traced.enterFault {sm : StateMachine} {past : List RuntimeState} (h : Traced sm past) :
    ∃ past', Traced sm.enterFault past' := by
  rw [StateMachine.enterFault]
  split
  · next hallowed =>
    refine ⟨_, h.enter hallowed ?_⟩
    rintro hstop
    rw [hstop] at hallowed
    cases hallowed
  · exact ⟨past, h⟩

/-- Every operation goes along allowed transitions. -/
theorem Traced.next {s : Scheduler} {past : List RuntimeState} (h : Traced s.state past)
    (op : Operation) : ∃ past', Traced (op.apply s).state past' := by
  have hinit : s.state.current.canTransitionTo .init = true → s.state.current ≠ .safeStop := by
    intro hfrom hstop
    rw [hstop] at hfrom
    cases hfrom
  have hrun : ∀ {target}, s.state.current = .run →
      RuntimeState.run.canTransitionTo target = true →
        Traced (s.state.enter target) (past ++ [s.state.current]) := by
    intro target hfrom hallowed
    exact h.enter (by rw [hfrom]; exact hallowed) (by rw [hfrom]; exact RuntimeState.noConfusion)
  cases s.progress_apply op with
  | same _ hstate =>
    rw [hstate]
    exact ⟨past, h⟩
  | initFailed hfrom _ _ hstate =>
    rw [hstate]
    exact ⟨_, h.enter hfrom (hinit hfrom)⟩
  | initialised hfrom _ hstate =>
    rw [hstate]
    exact ⟨_, (h.enter hfrom (hinit hfrom)).enter rfl RuntimeState.noConfusion⟩
  | started hfrom _ hstate =>
    rw [hstate]
    exact ⟨_, h.enter (by rw [hfrom]; rfl) (by rw [hfrom]; exact RuntimeState.noConfusion)⟩
  | stepped _ _ _ _ hstate =>
    rw [hstate]
    exact ⟨past, h⟩
  | stepFaulted hfrom _ _ _ hstate =>
    rw [hstate]
    exact ⟨_, hrun hfrom rfl⟩
  | faulted _ hstate =>
    rw [hstate]
    exact h.enterFault
  | stopped hfrom _ hstate =>
    rw [hstate]
    exact ⟨_, hrun hfrom rfl⟩

/-- The states of every run are a path from BOOT along the allowed transitions. The state machine
counts its transitions and remembers the state before the last one, and SAFE_STOP is never left. -/
theorem lifecycle_path (config : RuntimeConfig) (watchdog : Option Watchdog)
    (ops : List Operation) :
    ∃ past, Traced (watch config watchdog ops).scheduler.state past := by
  induction ops using List.reverseRecOn with
  | nil => exact ⟨[], traced_new⟩
  | append_singleton ops op ih =>
    obtain ⟨past, hpast⟩ := ih
    rw [watch_append]
    exact hpast.next op

/-! ## After a stop -/

/-- The scheduler has been stopped with these calls behind it and this safe image. -/
structure Stopped (calls : List EngineCall) (image : FieldbusOutputs) (s : Scheduler) : Prop where
  state : s.state.current = .safeStop
  engine : ∃ n, s.engine = calls ++ List.replicate n .fault
  published : s.io.readOutputs.fieldbusOutputs = image
  safe : s.faultPolicy.safeOutputs.safeImage s.lastOutputs.fieldbusOutputs = image

section Stopped

variable {calls : List EngineCall} {image : FieldbusOutputs} {s : Scheduler}

/-- Making the outputs safe again shows the same image. -/
theorem Stopped.setSafeOutputs (h : Stopped calls image s) : Stopped calls image s.setSafeOutputs :=
  ⟨h.state, h.engine, s.setSafeOutputs_published.trans h.safe, h.safe⟩

theorem Stopped.enterFault (h : Stopped calls image s) : Stopped calls image s.enterFault := by
  have hstate : s.state.enterFault = s.state := by
    rw [StateMachine.enterFault, h.state]
    rfl
  obtain ⟨n, hn⟩ := h.engine
  refine ⟨?_, ⟨n + 1, ?_⟩, h.setSafeOutputs.published, h.safe⟩
  · rw [Scheduler.enterFault_state, hstate]
    exact h.state
  · rw [Scheduler.enterFault_engine, hn, List.replicate_succ', List.append_assoc]

/-- Nothing leads out of a stop. -/
theorem Stopped.next (h : Stopped calls image s) (op : Operation) :
    Stopped calls image (op.apply s) := by
  cases op with
  | init result =>
    have hrefused : (s.initializeScheduler result).2 = s := by
      rw [Scheduler.initializeScheduler, StateMachine.transition, h.state]
      rfl
    show Stopped calls image (s.initializeScheduler result).2
    rw [hrefused]
    exact h
  | start spawn =>
    have hrefused : (s.start spawn).2 = s := by
      rw [Scheduler.start, h.state]
      rfl
    show Stopped calls image (s.start spawn).2
    rw [hrefused]
    exact h
  | runCycle events =>
    have hrefused : (s.runCycle events).2 = s :=
      runCycle_refused events (by rw [h.state]; exact RuntimeState.noConfusion)
    show Stopped calls image (s.runCycle events).2
    rw [hrefused]
    exact h
  | enterFault => exact h.enterFault
  | stop =>
    have hstop : s.stop.2 =
        { s with watchdog := s.watchdog.map Watchdog.stop }.setSafeOutputs := by
      rw [Scheduler.stop]
      simp only [h.state, if_false, reduceCtorEq]
    have hwatchdog : Stopped calls image { s with watchdog := s.watchdog.map Watchdog.stop } :=
      ⟨h.state, h.engine, h.published, h.safe⟩
    show Stopped calls image s.stop.2
    rw [hstop]
    exact hwatchdog.setSafeOutputs
  | writeInputs f => exact ⟨h.state, h.engine, h.published, h.safe⟩

/-- Whatever is asked of it afterwards. -/
theorem Stopped.run (h : Stopped calls image s) (later : List Operation) :
    Stopped calls image (later.foldl Operation.apply s) := by
  induction later generalizing s with
  | nil => exact h
  | cons op rest ih => exact ih (h.next op)

end Stopped

/-- The remembered outputs are those of the last successful step. -/
def Scheduler.Remembers (s : Scheduler) : Prop := s.lastOutputs.fieldbusOutputs = s.lastStep

theorem Scheduler.Remembers.quiet {s s' : Scheduler} (h : s.Remembers) (hq : Watched.Quiet s s') :
    s'.Remembers := by
  obtain ⟨calls, hengine, hnone⟩ := hq.engine
  rw [Remembers, hq.lastOutputs, lastStep, hengine, List.filterMap_append, hnone, List.append_nil]
  exact h

theorem Scheduler.Remembers.next {s : Scheduler} (h : s.Remembers) (op : Operation) :
    (op.apply s).Remembers := by
  cases op with
  | init result => exact h.quiet (Watched.quiet_init s result)
  | start spawn => exact h.quiet (Watched.quiet_start s spawn)
  | enterFault => exact h.trans s.lastStep_enterFault.symm
  | stop =>
    show s.stop.2.lastOutputs.fieldbusOutputs = s.stop.2.lastStep
    rw [s.lastStep_stop, Scheduler.stop]
    dsimp only
    split
    · cases s.state.transition .safeStop <;> exact h
    · exact h
  | writeInputs f => exact h
  | runCycle events =>
    show (s.runCycle events).2.Remembers
    cases s.runCycle_cases events with
    | refused _ heq =>
      rw [heq]
      exact h
    | timeout _ _ heq =>
      rw [heq]
      exact h.trans s.lastStep_enterFault.symm
    | failed _ _ e _ heq =>
      rw [heq, Remembers, lastStep_enterFault, lastStep_asked_error]
      exact h
    | overrun _ _ outputs _ _ heq =>
      rw [heq, Remembers, lastStep_enterFault, lastStep_publish, lastStep_asked_ok]
      rfl
    | completed _ _ outputs _ _ heq =>
      rw [heq, Remembers, lastStep_publish, lastStep_asked_ok]
      rfl

theorem remembers_watch (config : RuntimeConfig) (watchdog : Option Watchdog)
    (ops : List Operation) : (watch config watchdog ops).scheduler.Remembers := by
  induction ops using List.reverseRecOn with
  | nil => rfl
  | append_singleton ops op ih =>
    rw [watch_append]
    exact Scheduler.Remembers.next ih op

/-- A stop of a running scheduler is final: whatever is asked of it afterwards, it stays in
SAFE_STOP, its engine is neither initialised nor stepped again, and the published outputs stay the
safe image of the last successful step. -/
theorem stop_final (config : RuntimeConfig) (watchdog : Option Watchdog)
    (ops later : List Operation)
    (hrun : (watch config watchdog ops).scheduler.state.current = .run) :
    Stopped (watch config watchdog ops).scheduler.engine
      ((watch config watchdog ops).scheduler.faultPolicy.safeOutputs.safeImage
        (watch config watchdog ops).scheduler.lastStep)
      (watch config watchdog (ops ++ .stop :: later)).scheduler := by
  have hlast := remembers_watch config watchdog ops
  rw [watch_append, List.foldl_cons]
  generalize (watch config watchdog ops).scheduler = s at hrun hlast ⊢
  have hstop : Stopped s.engine (s.faultPolicy.safeOutputs.safeImage s.lastStep) s.stop.2 := by
    have htransition : s.state.transition .safeStop = .ok (s.state.enter .safeStop) := by
      rw [StateMachine.transition, hrun]
      rfl
    rw [Scheduler.stop]
    simp only [hrun, if_true, htransition]
    refine ⟨rfl, ⟨0, (List.append_nil _).symm⟩, ?_, ?_⟩
    · rw [Scheduler.setSafeOutputs_published, ← hlast]
    · rw [← hlast]
      rfl
  exact hstop.run later

/-- A stop after one cycle, and an attempt to start again. -/
theorem stop_final_restart : Stopped
    [.init (.ok ()),
      .step .zero (.ok { ProcessData.zero with digitalOutputs := Vector.replicate 1 5 })]
    ⟨5, Vector.replicate 16 0⟩
    (watch ⟨1000, 10, ⟨.warn, .holdLast, ⟨3, 2⟩⟩⟩ none
      [.init (.ok ()), .start (.ok ()), .runCycle ⟨false, fun _ =>
          .ok { ProcessData.zero with digitalOutputs := Vector.replicate 1 5 }, 0⟩,
        .stop, .init (.ok ()), .start (.ok ()), .enterFault]).scheduler :=
  stop_final ⟨1000, 10, ⟨.warn, .holdLast, ⟨3, 2⟩⟩⟩ none
    [.init (.ok ()), .start (.ok ()), .runCycle ⟨false, fun _ =>
      .ok { ProcessData.zero with digitalOutputs := Vector.replicate 1 5 }, 0⟩]
    [.init (.ok ()), .start (.ok ()), .enterFault] (by decide)

end VirtualPlc.Runtime

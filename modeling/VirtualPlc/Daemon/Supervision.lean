import VirtualPlc.Control.Streak
import VirtualPlc.Daemon.RunLoop

/-!
# Fieldbus supervision

The loop's counters are a failure streak over the results of the regular exchange, and what the loop
has sent follows from the streak: `Supervised` relates the variables to the turns so far, and
`supervised_turn` keeps it.
-/

set_option autoImplicit false

namespace VirtualPlc.Daemon

open VirtualPlc.Runtime VirtualPlc.Control

/-- Result of the regular exchange as the counters see it; a threshold report is not counted. -/
def Cycle.link (cycle : Cycle) : Option Bool :=
  match cycle.exchange with
  | .ok () => some true
  | .error e => if isWkcThreshold (.error e) then none else some false

/-- Results of the regular exchange over some turns. -/
def links (cycles : List Cycle) : List Bool := cycles.filterMap Cycle.link

/-- Grace period as a number. -/
def Setup.grace (setup : Setup) : Nat := setup.failurePolicy.recoveryGraceCycles.toNat

/-- Limit on failures as a number. -/
def Setup.limit (setup : Setup) : Nat := setup.failurePolicy.maxConsecutiveFailures.toNat

/-- The failure streak after some turns. -/
def Setup.streak (setup : Setup) (cycles : List Cycle) : Streak :=
  Streak.after setup.grace (links cycles)

/-- Outputs of a successful step on the inputs of a turn. -/
def Cycle.stepped (cycle : Cycle) : Option FieldbusOutputs :=
  match cycle.events.step cycle.inputs.image with
  | .ok outputs => some outputs.fieldbusOutputs
  | .error _ => none

/-- Outputs of the last successful step of some turns, zero if there is none. -/
def latest (cycles : List Cycle) : FieldbusOutputs :=
  ((cycles.filterMap Cycle.stepped).getLast?).getD .zero

@[simp] theorem links_concat (cycles : List Cycle) (cycle : Cycle) :
    links (cycles ++ [cycle]) = links cycles ++ cycle.link.toList := by
  cases h : cycle.link <;> simp [links, h]

theorem latest_concat_some {cycles : List Cycle} {cycle : Cycle} {outputs : FieldbusOutputs}
    (h : cycle.stepped = some outputs) : latest (cycles ++ [cycle]) = outputs := by
  simp [latest, h]

theorem latest_concat_none {cycles : List Cycle} {cycle : Cycle} (h : cycle.stepped = none) :
    latest (cycles ++ [cycle]) = latest cycles := by
  simp [latest, h]

theorem Cycle.link_ok {cycle : Cycle} (h : cycle.exchange = .ok ()) : cycle.link = some true := by
  simp [link, h]

theorem Cycle.link_failed {cycle : Cycle} {e : PlcError} (h : cycle.exchange = .error e)
    (hwkc : isWkcThreshold (.error e) = false) : cycle.link = some false := by
  simp [link, h, hwkc]

theorem Cycle.link_wkc {cycle : Cycle} (h : isWkcThreshold cycle.exchange = true) :
    cycle.link = none := by
  unfold link
  cases hexchange : cycle.exchange with
  | ok u => simp [hexchange, isWkcThreshold] at h
  | error e => simp only [hexchange] at h; simp [h]

/-! ## The counters -/

/-- The loop's counters are those of a streak; the failure counter is kept modulo `2 ^ 32`. -/
structure Counts (v : LoopState) (s : Streak) : Prop where
  active : v.inFailureStreak = s.active
  failures : v.consecutiveFbFailures = BitVec.ofNat 32 s.failures
  remaining : v.recoveryCyclesRemaining.toNat = s.remaining

/-- The counters are all that matters. -/
theorem Counts.congr {v v' : LoopState} {s : Streak} (h : Counts v s)
    (hactive : v'.inFailureStreak = v.inFailureStreak)
    (hfailures : v'.consecutiveFbFailures = v.consecutiveFbFailures)
    (hremaining : v'.recoveryCyclesRemaining = v.recoveryCyclesRemaining) : Counts v' s :=
  ⟨hactive.trans h.active, hfailures.trans h.failures, hremaining ▸ h.remaining⟩

theorem Counts.sendOutputs {v : LoopState} {s : Streak} (h : Counts v s) (cycle : Cycle) :
    Counts (v.sendOutputs cycle) s := by
  unfold LoopState.sendOutputs
  split <;> exact h.congr rfl rfl rfl

theorem Counts.exchangeFailed {v : LoopState} {s : Streak} (h : Counts v s) (cycle : Cycle) :
    Counts (v.exchangeFailed cycle) s.fail where
  active := rfl
  failures := by
    simp only [LoopState.exchangeFailed, Streak.fail, h.failures, BitVec.ofNat_add]
    rfl
  remaining := rfl

theorem graceLeft_toNat (policy : FieldbusFailurePolicy) (remaining : BitVec 32) :
    (LoopState.graceLeft policy remaining).toNat =
      (if remaining.toNat = 0 then policy.recoveryGraceCycles.toNat else remaining.toNat) - 1 := by
  have hdec : ∀ r : BitVec 32, (if 0 < r then r - 1 else r).toNat = r.toNat - 1 := by
    intro r
    split <;> bv_omega
  have hzero : remaining = 0 ↔ remaining.toNat = 0 := by bv_omega
  unfold LoopState.graceLeft
  rw [hdec]
  simp only [hzero]
  split <;> rfl

theorem Counts.exchangeRecovered {v : LoopState} {s : Streak} {policy : FieldbusFailurePolicy}
    (h : Counts v s) (hactive : s.active = true) (cycle : Cycle) :
    Counts (v.exchangeRecovered policy cycle) (s.succeed policy.recoveryGraceCycles.toNat) := by
  have hleft := graceLeft_toNat policy v.recoveryCyclesRemaining
  rw [h.remaining] at hleft
  simp only [Streak.succeed, hactive, if_true, ← hleft]
  unfold LoopState.exchangeRecovered
  have hzero : LoopState.graceLeft policy v.recoveryCyclesRemaining = 0 ↔
      (LoopState.graceLeft policy v.recoveryCyclesRemaining).toNat = 0 := by bv_omega
  by_cases hend : LoopState.graceLeft policy v.recoveryCyclesRemaining = 0
  · rw [if_pos hend, if_pos (hzero.mp hend)]
    exact ⟨rfl, rfl, hzero.mp hend⟩
  · rw [if_neg hend, if_neg (mt hzero.mpr hend)]
    exact ⟨h.active.trans hactive, h.failures, rfl⟩

/-- The limit is reached when it is set and the counter, which has not wrapped, is that far. -/
theorem Counts.limitReached_iff {setup : Setup} {v : LoopState} {s : Streak} (h : Counts v s)
    (hbelow : 0 < setup.limit → s.failures ≤ setup.limit) :
    v.limitReached setup.failurePolicy = true ↔ 0 < setup.limit ∧ setup.limit ≤ s.failures := by
  have hmax : setup.failurePolicy.maxConsecutiveFailures.toNat = setup.limit := rfl
  have hlt : setup.limit < 2 ^ 32 := setup.failurePolicy.maxConsecutiveFailures.isLt
  have hnat : v.consecutiveFbFailures.toNat = s.failures % 2 ^ 32 := by
    rw [h.failures, BitVec.toNat_ofNat]
  simp only [LoopState.limitReached, Bool.and_eq_true, decide_eq_true_eq, BitVec.lt_def,
    BitVec.le_def, hmax, hnat, BitVec.ofNat_eq_ofNat, BitVec.toNat_ofNat, Nat.zero_mod]
  constructor
  · rintro ⟨hpos, hle⟩
    exact ⟨hpos, hle.trans (Nat.mod_le _ _)⟩
  · rintro ⟨hpos, hle⟩
    have hsmall : s.failures < 2 ^ 32 := (hbelow hpos).trans_lt hlt
    rw [Nat.mod_eq_of_lt hsmall]
    exact ⟨hpos, hle⟩

/-! ## The scheduler between two turns -/

/-- The scheduler runs and publishes the outputs of its last successful step. -/
structure Ready (setup : Setup) (s : Scheduler) (outputs : FieldbusOutputs) : Prop where
  running : s.state.current = .run
  policy : s.faultPolicy = setup.config.faultPolicy
  watchdog : ∃ wd, s.watchdog = some wd ∧ wd.triggered = false
  inputsOnly : s.io.InputsOnly
  published : s.io.readOutputs.fieldbusOutputs = outputs
  lastStep : s.lastStep = outputs

theorem Ready.watchdogTriggered {setup : Setup} {s : Scheduler} {outputs : FieldbusOutputs}
    (h : Ready setup s outputs) (timedOut : Bool) : s.watchdogTriggered timedOut = timedOut := by
  obtain ⟨wd, hwd, hflag⟩ := h.watchdog
  simp only [Scheduler.watchdogTriggered, hwd, hflag, Bool.false_or]

/-- Outputs of the last successful step after one more turn that reaches the logic. -/
def Cycle.outputsAfter (cycle : Cycle) (outputs : FieldbusOutputs) : FieldbusOutputs :=
  if cycle.events.timedOut then outputs else cycle.stepped.getD outputs

/-- What the logic half of a turn does. -/
structure LogicDone (setup : Setup) (v v' : LoopState) (cycle : Cycle) (outputs : FieldbusOutputs) :
    Prop where
  calls : v'.calls = v.calls ++ [.getInputs cycle.inputs, .runCycle]
  policy : v'.scheduler.faultPolicy = setup.config.faultPolicy
  lastStep : v'.scheduler.lastStep = cycle.outputsAfter outputs

/-- A cycle from a ready scheduler. When it succeeds, the scheduler is ready with the new outputs.
-/
theorem Ready.runCycle {setup : Setup} {s : Scheduler} {outputs : FieldbusOutputs} {cycle : Cycle}
    (h : Ready setup s outputs) (hread : s.io.readInputs = cycle.inputs.image) :
    (s.runCycle cycle.events).2.faultPolicy = setup.config.faultPolicy ∧
      (s.runCycle cycle.events).2.lastStep = cycle.outputsAfter outputs ∧
      ∀ result, (s.runCycle cycle.events).1 = .ok result →
        Ready setup (s.runCycle cycle.events).2 (cycle.outputsAfter outputs) ∧
          cycle.events.timedOut = false ∧ cycle.stepped.isSome = true := by
  have hwd := h.watchdogTriggered cycle.events.timedOut
  cases s.runCycle_cases cycle.events with
  | refused hstate => exact absurd h.running hstate
  | timeout _ htime heq =>
    rw [hwd] at htime
    simp only [heq, Cycle.outputsAfter, htime, if_true]
    refine ⟨h.policy, ?_, by simp⟩
    rw [Scheduler.lastStep_enterFault, h.lastStep]
  | failed _ htime e hstep heq =>
    rw [hwd] at htime
    -- a failed step keeps the outputs of the last one that succeeded
    have hnone : cycle.stepped = none := by simp [Cycle.stepped, ← hread, hstep]
    simp only [heq, Cycle.outputsAfter, htime, hnone, Bool.false_eq_true, if_false,
      Option.getD_none]
    refine ⟨h.policy, ?_, by simp⟩
    rw [Scheduler.lastStep_enterFault, Scheduler.lastStep_asked_error, h.lastStep]
  | overrun _ htime values hstep _ heq =>
    rw [hwd] at htime
    -- an overrun faults after the outputs of the step have been published
    have hsome : cycle.stepped = some values.fieldbusOutputs := by
      simp [Cycle.stepped, ← hread, hstep]
    simp only [heq, Cycle.outputsAfter, htime, hsome, Bool.false_eq_true, if_false,
      Option.getD_some]
    refine ⟨h.policy, ?_, by simp⟩
    rw [Scheduler.lastStep_enterFault, Scheduler.lastStep_publish, Scheduler.lastStep_asked_ok]
  | completed _ htime values hstep _ heq =>
    rw [hwd] at htime
    have hsome : cycle.stepped = some values.fieldbusOutputs := by
      simp [Cycle.stepped, ← hread, hstep]
    have hlast : ((s.asked s.io.readInputs (.ok values)).publish values).lastStep =
        values.fieldbusOutputs := by
      rw [Scheduler.lastStep_publish, Scheduler.lastStep_asked_ok]
    simp only [heq, Cycle.outputsAfter, htime, hsome, Bool.false_eq_true, if_false,
      Option.getD_some]
    refine ⟨h.policy, hlast, fun result _ => ⟨?_, trivial, rfl⟩⟩
    exact ⟨h.running, h.policy, h.watchdog, h.inputsOnly, Scheduler.publish_published _ _, hlast⟩

/-- The logic half of a turn. When the loop goes on, the step has succeeded and its outputs are
published. -/
theorem Ready.logicCycle {setup : Setup} {v : LoopState} {outputs : FieldbusOutputs}
    (h : Ready setup v.scheduler outputs) (cycle : Cycle) :
    LogicDone setup v (v.logicCycle setup.maxCycles cycle).state cycle outputs ∧
      ∀ v', v.logicCycle setup.maxCycles cycle = .next v' →
        Ready setup v'.scheduler (cycle.outputsAfter outputs) ∧
        (∀ s, Counts v s → Counts v' s) ∧ cycle.events.timedOut = false ∧
        cycle.stepped.isSome = true := by
  have hread : (v.readInputs cycle).scheduler.io.readInputs = cycle.inputs.image :=
    h.inputsOnly.readInputs_writeInputs cycle.inputs
  have hready : Ready setup (v.readInputs cycle).scheduler outputs :=
    ⟨h.running, h.policy, h.watchdog, h.inputsOnly.writeInputs cycle.inputs, h.published,
      h.lastStep⟩
  obtain ⟨hpolicy, hlast, hok⟩ := hready.runCycle hread
  have hcalls : (v.readInputs cycle).calls = v.calls ++ [.getInputs cycle.inputs] := rfl
  simp only [LoopState.logicCycle]
  -- from here on only what is known of the answer matters
  generalize (v.readInputs cycle).scheduler.runCycle cycle.events = answer at hpolicy hlast hok ⊢
  obtain ⟨result, scheduler⟩ := answer
  cases result with
  | error e =>
    refine ⟨⟨?_, hpolicy, hlast⟩, by simp⟩
    simp [Flow.state, LoopState.call, hcalls]
  | ok result =>
    obtain ⟨hready', htime, hstep⟩ := hok result rfl
    simp only
    split
    · refine ⟨⟨?_, hpolicy, hlast⟩, by simp⟩
      simp [Flow.state, LoopState.call, hcalls]
    · refine ⟨⟨?_, hpolicy, hlast⟩, ?_⟩
      · simp [Flow.state, LoopState.call, hcalls]
      intro v' hv'
      injection hv' with hv'
      subst hv'
      exact ⟨hready', fun s hs => ⟨hs.active, hs.failures, hs.remaining⟩, htime, hstep⟩

/-! ## The invariant of the loop -/

/-- The variables between two turns, against the turns so far. -/
structure Supervised (setup : Setup) (past : List Cycle) (v : LoopState) : Prop where
  ready : Ready setup v.scheduler (latest past)
  counts : Counts v (setup.streak past)
  below : 0 < setup.limit → (setup.streak past).failures < setup.limit
  live : ∀ cycle ∈ past, cycle.shutdownRequested = false

/-- The variables in the middle of a turn that goes on to the logic. -/
structure Linked (setup : Setup) (past : List Cycle) (cycle : Cycle) (v : LoopState) : Prop where
  ready : Ready setup v.scheduler (latest past)
  counts : Counts v (setup.streak (past ++ [cycle]))
  below : 0 < setup.limit → (setup.streak (past ++ [cycle])).failures < setup.limit

section Turn

variable {setup : Setup} {past : List Cycle} {v : LoopState} {cycle : Cycle}

@[simp] theorem sendOutputs_scheduler (v : LoopState) (cycle : Cycle) :
    (v.sendOutputs cycle).scheduler = v.scheduler := by
  unfold LoopState.sendOutputs
  split <;> rfl

theorem exchangeRecovered_scheduler (v : LoopState) (policy : FieldbusFailurePolicy)
    (cycle : Cycle) : (v.exchangeRecovered policy cycle).scheduler = v.scheduler := by
  unfold LoopState.exchangeRecovered
  dsimp only
  split <;> rfl

theorem streak_ok (hexchange : cycle.exchange = .ok ()) :
    setup.streak (past ++ [cycle]) = (setup.streak past).succeed setup.grace := by
  simp [Setup.streak, Cycle.link_ok hexchange, Streak.next]

theorem streak_failed {e : PlcError} (hexchange : cycle.exchange = .error e)
    (hwkc : isWkcThreshold (.error e) = false) :
    setup.streak (past ++ [cycle]) = (setup.streak past).fail := by
  simp [Setup.streak, Cycle.link_failed hexchange hwkc, Streak.next]

theorem latest_concat (htime : cycle.events.timedOut = false) :
    cycle.outputsAfter (latest past) = latest (past ++ [cycle]) := by
  unfold Cycle.outputsAfter
  rw [htime]
  cases hstep : cycle.stepped with
  | none => simpa using (latest_concat_none hstep).symm
  | some outputs => simpa using (latest_concat_some hstep).symm

/-- What the limit check says after a failure. -/
theorem Supervised.limitReached_iff (h : Supervised setup past v) {e : PlcError}
    (hexchange : cycle.exchange = .error e) (hwkc : isWkcThreshold (.error e) = false) :
    ((v.sendOutputs cycle).exchangeFailed cycle).limitReached setup.failurePolicy = true ↔
      0 < setup.limit ∧ setup.limit ≤ (setup.streak (past ++ [cycle])).failures := by
  rw [streak_failed hexchange hwkc]
  refine ((h.counts.sendOutputs cycle).exchangeFailed cycle).limitReached_iff fun hpos => ?_
  exact Nat.succ_le_of_lt (h.below hpos)

theorem Supervised.linked_failed (h : Supervised setup past v) {e : PlcError}
    (hexchange : cycle.exchange = .error e) (hwkc : isWkcThreshold (.error e) = false)
    (hlimit : ((v.sendOutputs cycle).exchangeFailed cycle).limitReached setup.failurePolicy =
      false) : Linked setup past cycle ((v.sendOutputs cycle).exchangeFailed cycle) where
  ready := by
    have hscheduler : ((v.sendOutputs cycle).exchangeFailed cycle).scheduler = v.scheduler :=
      sendOutputs_scheduler v cycle
    rw [hscheduler]
    exact h.ready
  counts := by
    rw [streak_failed hexchange hwkc]
    exact (h.counts.sendOutputs cycle).exchangeFailed cycle
  below := by
    intro hpos
    have hnot := mt (h.limitReached_iff hexchange hwkc).mpr (by simp [hlimit])
    omega

theorem Supervised.linked_recovering (h : Supervised setup past v)
    (hexchange : cycle.exchange = .ok ()) (hstreak : v.inFailureStreak = true) :
    Linked setup past cycle
      ((v.sendOutputs cycle).exchangeRecovered setup.failurePolicy cycle) where
  ready := by
    rw [exchangeRecovered_scheduler, sendOutputs_scheduler]
    exact h.ready
  counts := by
    rw [streak_ok hexchange]
    exact (h.counts.sendOutputs cycle).exchangeRecovered (h.counts.active ▸ hstreak) cycle
  below := by
    intro hpos
    rw [streak_ok hexchange]
    exact (Streak.succeed_failures_le _ _).trans_lt (h.below hpos)

theorem Supervised.linked_normal (h : Supervised setup past v)
    (hexchange : cycle.exchange = .ok ()) (hstreak : v.inFailureStreak = false) :
    Linked setup past cycle (v.sendOutputs cycle) := by
  have hidle : (setup.streak past).active = false := h.counts.active ▸ hstreak
  have hsame : setup.streak (past ++ [cycle]) = setup.streak past := by
    rw [streak_ok hexchange]
    simp only [Streak.succeed, hidle, Bool.false_eq_true, if_false]
  refine ⟨?_, hsame ▸ h.counts.sendOutputs cycle, hsame ▸ h.below⟩
  rw [sendOutputs_scheduler]
  exact h.ready

/-- A turn whose logic succeeds restores the invariant. -/
theorem Linked.next {v' : LoopState} (hlinked : Linked setup past cycle v)
    (hlive : ∀ cycle ∈ past, cycle.shutdownRequested = false)
    (hstop : cycle.shutdownRequested = false)
    (hnext : v.logicCycle setup.maxCycles cycle = .next v') :
    Supervised setup (past ++ [cycle]) v' := by
  obtain ⟨hready, hcounts, htime, -⟩ := (hlinked.ready.logicCycle cycle).2 v' hnext
  refine ⟨latest_concat htime ▸ hready, hcounts _ hlinked.counts, hlinked.below, ?_⟩
  intro other hmem
  rcases List.mem_append.mp hmem with hpast | hlast
  · exact hlive other hpast
  · rw [List.mem_singleton.mp hlast]
    exact hstop

/-- A turn that lets the loop go on keeps the invariant. -/
theorem supervised_turn {v' : LoopState} (h : Supervised setup past v)
    (hnext : v.turn setup cycle = .next v') : Supervised setup (past ++ [cycle]) v' := by
  cases LoopState.turn_cases setup v cycle with
  | stopped _ heq | wkcFault _ _ heq | gaveUp _ _ _ _ _ heq =>
    rw [heq] at hnext
    simp at hnext
  | failed hstop e hexchange hwkc hlimit heq =>
    exact (h.linked_failed hexchange hwkc hlimit).next h.live hstop (heq ▸ hnext)
  | recovering hstop hexchange hstreak heq =>
    exact (h.linked_recovering hexchange hstreak).next h.live hstop (heq ▸ hnext)
  | normal hstop hexchange hstreak heq =>
    exact (h.linked_normal hexchange hstreak).next h.live hstop (heq ▸ hnext)

end Turn

/-! ## The start of the loop -/

/-- A new scheduler can be initialised, and then it waits to be started. -/
theorem initialize_create {config : RuntimeConfig} {init : PlcResult Unit} {s : Scheduler}
    (h : (createScheduler config).initializeScheduler init = (.ok (), s)) :
    s = { createScheduler config with
      engine := [.init init]
      state := (StateMachine.new.enter .init).enter .preOp } := by
  cases init with
  | error e =>
    simp [createScheduler, Scheduler.initializeScheduler, Scheduler.new, StateMachine.transition,
      StateMachine.new, RuntimeState.canTransitionTo] at h
  | ok u =>
    simp [createScheduler, Scheduler.initializeScheduler, Scheduler.new, StateMachine.transition,
      StateMachine.new, RuntimeState.canTransitionTo] at h
    rw [← h]
    rfl

/-- The loop starts with a scheduler that runs and has published zeros. -/
theorem supervised_new {setup : Setup} {world : World} {s s' : Scheduler}
    (hinit : (createScheduler setup.config).initializeScheduler world.init = (.ok (), s))
    (hstart : s.start world.spawn = (.ok (), s')) : Supervised setup [] (.new s') := by
  rw [initialize_create hinit] at hstart
  have hs' : s' = { createScheduler setup.config with
      engine := [.init world.init]
      state := ((StateMachine.new.enter .init).enter .preOp).enter .run
      watchdog := some ⟨true, false⟩ } := by
    cases hspawn : world.spawn with
    | error e =>
      simp [hspawn, createScheduler, Scheduler.start, Scheduler.startWatchdog, Watchdog.start,
        Watchdog.new] at hstart
    | ok u =>
      simp [hspawn, createScheduler, Scheduler.start, Scheduler.startWatchdog, Watchdog.start,
        Watchdog.new, StateMachine.transition, RuntimeState.canTransitionTo] at hstart
      rw [← hstart]
      rfl
  subst hs'
  refine ⟨⟨rfl, rfl, ⟨_, rfl, rfl⟩, IoImage.inputsOnly_new, ?_, rfl⟩, ⟨rfl, rfl, rfl⟩, ?_, by simp⟩
  · exact ProcessData.fieldbusOutputs_zero
  · exact fun hpos => hpos

/-- A run that gets to the loop starts it from the invariant. -/
theorem runSchedulerLoop_cases (setup : Setup) (world : World) :
    (∃ context e, runSchedulerLoop setup world = .failed context e) ∨
      ∃ v, Supervised setup [] v ∧ v.calls = [] ∧
        runSchedulerLoop setup world =
          match v.mainLoop setup world.cycles with
          | (.next v, _) => .running v
          | (.leave v, unused) => .finished v.shutDown unused := by
  unfold runSchedulerLoop
  cases hinit : (createScheduler setup.config).initializeScheduler world.init with
  | mk result s =>
    cases result with
    | error e => exact .inl ⟨_, e, rfl⟩
    | ok u =>
      cases hstart : s.start world.spawn with
      | mk result s' =>
        cases result with
        | error e => exact .inl ⟨"Failed to start scheduler", e, by simp only [hstart]⟩
        | ok u =>
          refine .inr ⟨.new s', supervised_new hinit hstart, rfl, ?_⟩
          cases hmain : (LoopState.new s').mainLoop setup world.cycles with
          | mk step unused =>
            cases step <;>
              simp only [hstart, waitForShutdown_zero, Bool.false_eq_true, if_false, hmain]

end VirtualPlc.Daemon

import VirtualPlc.Runtime.Outputs

/-!
# Recovery from a fault

A faulted scheduler recovers by `initialize` and `start`. Entering FAULT leaves the watchdog's
monitor running and `start` refuses a watchdog that runs, so what recovers is decided by the monitor
(`recovers_iff`). A fault out of RUN never recovers under a watchdog (`recovers_after_run_iff`).
-/

set_option autoImplicit false

namespace VirtualPlc.Runtime

namespace Scheduler

/-- `initialize` and then `start` succeed and reach RUN, with an engine whose `init` succeeds. -/
def Recovers (s : Scheduler) (spawn : Except String Unit) : Prop :=
  (s.initializeScheduler (.ok ())).1 = .ok () ∧
    ((s.initializeScheduler (.ok ())).2.start spawn).1 = .ok () ∧
    ((s.initializeScheduler (.ok ())).2.start spawn).2.state.current = .run

/-- There is a watchdog and its monitor thread runs. -/
def Monitored (s : Scheduler) : Prop := s.watchdog.any (·.running) = true

instance (s : Scheduler) : Decidable s.Monitored := inferInstanceAs (Decidable (_ = true))

/-! ## The two calls -/

/-- Out of FAULT, a scheduler whose engine starts reaches PRE_OP, and keeps its watchdog. -/
theorem initialize_of_fault {s : Scheduler} (hfault : s.state.current = .fault) :
    (s.initializeScheduler (.ok ())).1 = .ok () ∧
      (s.initializeScheduler (.ok ())).2.state.current = .preOp ∧
      (s.initializeScheduler (.ok ())).2.watchdog = s.watchdog := by
  have hinit : s.state.transition .init = .ok (s.state.enter .init) := by
    simp [StateMachine.transition, hfault, RuntimeState.canTransitionTo]
  have hpre : (s.state.enter .init).transition .preOp =
      .ok ((s.state.enter .init).enter .preOp) := by
    simp [StateMachine.transition, RuntimeState.canTransitionTo]
  rw [initializeScheduler, hinit]
  simp only [hpre, StateMachine.enter_current, and_self]

/-- From PRE_OP, `start` does what the watchdog does. -/
theorem start_of_preOp {s : Scheduler} (hpre : s.state.current = .preOp)
    (spawn : Except String Unit) :
    s.start spawn =
      match s.startWatchdog spawn with
      | (.error e, s') => (.error e, s')
      | (.ok (), s') => (.ok (), { s' with state := s.state.enter .run }) := by
  have hrun : s.state.transition .run = .ok (s.state.enter .run) := by
    simp [StateMachine.transition, hpre, RuntimeState.canTransitionTo]
  have hstate : (s.startWatchdog spawn).2.state = s.state := by
    rw [startWatchdog]
    cases s.watchdog <;> rfl
  rw [start, if_neg (by simp [hpre])]
  revert hstate
  rcases s.startWatchdog spawn with ⟨result, s'⟩
  intro hstate
  cases result with
  | error e => rfl
  | ok u =>
    have hstate' : s'.state = s.state := hstate
    simp only [hstate', hrun]

/-- The watchdog starts unless its monitor runs already or the thread cannot be created. -/
theorem startWatchdog_ok_iff (s : Scheduler) (spawn : Except String Unit) :
    (s.startWatchdog spawn).1 = .ok () ↔
      s.watchdog = none ∨ ¬ s.Monitored ∧ spawn = .ok () := by
  rw [startWatchdog, Monitored]
  cases s.watchdog with
  | none => simp
  | some wd =>
    cases hrunning : wd.running with
    | true => simp [Watchdog.start, hrunning]
    | false => cases spawn <;> simp [Watchdog.start, hrunning]

/-- A scheduler in FAULT recovers if its watchdog can be started again. -/
theorem recovers_of_fault_iff {s : Scheduler} (hfault : s.state.current = .fault)
    (spawn : Except String Unit) :
    s.Recovers spawn ↔ s.watchdog = none ∨ ¬ s.Monitored ∧ spawn = .ok () := by
  obtain ⟨hok, hpre, hwatchdog⟩ := initialize_of_fault hfault
  have hmonitored : (s.initializeScheduler (.ok ())).2.Monitored ↔ s.Monitored := by
    simp only [Monitored, hwatchdog]
  rw [← hwatchdog, ← hmonitored, ← startWatchdog_ok_iff, Recovers, start_of_preOp hpre]
  rcases (s.initializeScheduler (.ok ())).2.startWatchdog spawn with ⟨result, s'⟩
  cases result with
  | error e => simp
  | ok u => simp [hok]

/-! ## The monitor over a run -/

/-- In RUN, the monitor of the watchdog runs, where there is a watchdog. -/
def Attended (s : Scheduler) : Prop :=
  s.state.current = .run → s.watchdog = none ∨ s.Monitored

/-- An operation that keeps the watchdog and does not enter RUN. -/
theorem Attended.of_kept {s s' : Scheduler} (h : s.Attended) (hwatchdog : s'.watchdog = s.watchdog)
    (hstate : s'.state.current = .run → s.state.current = .run) : s'.Attended := by
  intro hrun
  have hs := h (hstate hrun)
  simpa only [Monitored, hwatchdog] using hs

/-- The state after `enter_fault` is RUN only if it was, and it never is. -/
theorem enterFault_ne_run (s : Scheduler) : s.enterFault.state.current ≠ .run := by
  rw [enterFault_state, StateMachine.enterFault]
  cases hstate : s.state.current <;> simp [RuntimeState.canTransitionTo, hstate]

/-- A transition that succeeds enters its target. -/
theorem transition_current {sm sm' : StateMachine} {target : RuntimeState}
    (h : sm.transition target = .ok sm') : sm'.current = target := by
  rw [StateMachine.transition] at h
  split at h
  · cases h
    rfl
  · cases h

/-- Initialising keeps the watchdog and does not enter RUN. -/
theorem initialize_kept (s : Scheduler) (result : PlcResult Unit) :
    (s.initializeScheduler result).2.watchdog = s.watchdog ∧
      ((s.initializeScheduler result).2.state.current = .run → s.state.current = .run) := by
  rw [initializeScheduler]
  cases hinit : s.state.transition .init with
  | error e => exact ⟨rfl, id⟩
  | ok state =>
    have hstate : state.current ≠ .run := by simp [transition_current hinit]
    cases result with
    | error e => exact ⟨rfl, fun h => absurd h hstate⟩
    | ok u =>
      cases hpre : state.transition .preOp with
      | error e =>
        simp only [hpre]
        exact ⟨trivial, fun h => absurd h hstate⟩
      | ok state' =>
        have hstate' : state'.current ≠ .run := by simp [transition_current hpre]
        simp only [hpre]
        exact ⟨trivial, fun h => absurd h hstate'⟩

/-- Starting keeps a monitor that runs. -/
theorem startWatchdog_of_monitored {s : Scheduler} (h : s.Monitored) (spawn : Except String Unit) :
    (s.startWatchdog spawn).2 = s := by
  rw [startWatchdog]
  cases hwd : s.watchdog with
  | none => rfl
  | some wd =>
    have hrunning : wd.running = true := by simpa [Monitored, hwd] using h
    simp only [Watchdog.start, hrunning, if_true]
    rw [← hwd]

/-- A start that succeeds leaves the monitor of the watchdog running. -/
theorem startWatchdog_attends {s : Scheduler} {spawn : Except String Unit}
    (h : (s.startWatchdog spawn).1 = .ok ()) :
    (s.startWatchdog spawn).2.watchdog = none ∨ (s.startWatchdog spawn).2.Monitored := by
  rw [startWatchdog_ok_iff] at h
  rw [startWatchdog, Monitored]
  cases hwd : s.watchdog with
  | none => exact .inl hwd
  | some wd =>
    have hidle : ¬ s.Monitored ∧ spawn = .ok () := by simpa [hwd] using h
    have hrunning : wd.running = false := by simpa [Monitored, hwd] using hidle.1
    exact .inr (by simp [Watchdog.start, hrunning, hidle.2])

theorem Attended.start {s : Scheduler} (h : s.Attended) (spawn : Except String Unit) :
    (s.start spawn).2.Attended := by
  by_cases hpre : s.state.current = .preOp
  · rw [start_of_preOp hpre]
    have hstate : (s.startWatchdog spawn).2.state = s.state := by
      rw [startWatchdog]
      cases s.watchdog <;> rfl
    have hattends : (s.startWatchdog spawn).1 = .ok () →
        (s.startWatchdog spawn).2.watchdog = none ∨ (s.startWatchdog spawn).2.Monitored :=
      startWatchdog_attends
    revert hstate hattends
    rcases s.startWatchdog spawn with ⟨result, s'⟩
    intro hstate hattends
    cases result with
    | error e =>
      have hstate' : s'.state = s.state := hstate
      exact fun hrun => by simp [hstate', hpre] at hrun
    | ok u => exact fun _ => hattends rfl
  · rwa [Scheduler.start, if_pos hpre]

/-- A stop leaves RUN. -/
theorem stop_ne_run (s : Scheduler) : s.stop.2.state.current ≠ .run := by
  by_cases hrun : s.state.current = .run
  · simp [stop, hrun, StateMachine.transition, RuntimeState.canTransitionTo]
  · simp [stop, hrun]

/-- A cycle keeps the watchdog, and does not enter RUN. -/
theorem runCycle_kept (s : Scheduler) (events : CycleEvents) :
    (s.runCycle events).2.watchdog = s.watchdog ∧
      ((s.runCycle events).2.state.current = .run → s.state.current = .run) := by
  cases s.runCycle_cases events with
  | refused _ heq =>
    rw [heq]
    exact ⟨rfl, id⟩
  | timeout hstate _ heq =>
    rw [heq]
    exact ⟨rfl, fun _ => hstate⟩
  | failed hstate _ _ _ heq =>
    rw [heq]
    exact ⟨rfl, fun _ => hstate⟩
  | overrun hstate _ _ _ _ heq =>
    rw [heq]
    exact ⟨rfl, fun _ => hstate⟩
  | completed hstate _ _ _ _ heq =>
    rw [heq]
    exact ⟨rfl, fun _ => hstate⟩

/-- Every operation keeps the monitor running through RUN. -/
theorem Attended.apply {s : Scheduler} (h : s.Attended) (op : Operation) :
    (op.apply s).Attended := by
  cases op with
  | init result => exact h.of_kept (s.initialize_kept result).1 (s.initialize_kept result).2
  | start spawn => exact h.start spawn
  | runCycle events => exact h.of_kept (s.runCycle_kept events).1 (s.runCycle_kept events).2
  | enterFault => exact fun hrun => absurd hrun s.enterFault_ne_run
  | stop => exact fun hrun => absurd hrun s.stop_ne_run
  | writeInputs f => exact h.of_kept rfl id

/-- Operations keep a watchdog, and do not add one. -/
theorem apply_watchdog_eq_none (s : Scheduler) (op : Operation) :
    (op.apply s).watchdog = none ↔ s.watchdog = none := by
  cases op with
  | init result => rw [Operation.apply, (s.initialize_kept result).1]
  | start spawn =>
    have hstart : (s.startWatchdog spawn).2.watchdog = none ↔ s.watchdog = none := by
      rw [startWatchdog]
      cases hwd : s.watchdog <;> simp [hwd]
    by_cases hpre : s.state.current = .preOp
    · rw [Operation.apply, start_of_preOp hpre, ← hstart]
      rcases s.startWatchdog spawn with ⟨result, s'⟩
      cases result <;> exact Iff.rfl
    · rw [Operation.apply, Scheduler.start, if_pos hpre]
  | runCycle events => rw [Operation.apply, (s.runCycle_kept events).1]
  | enterFault => exact Iff.rfl
  | stop =>
    have hstop : s.stop.2.watchdog = s.watchdog.map Watchdog.stop := by
      rw [stop]
      dsimp only
      split
      · cases s.state.transition .safeStop <;> rfl
      · rfl
    rw [Operation.apply, hstop, Option.map_eq_none_iff]
  | writeInputs f => exact Iff.rfl

/-- Only `stop` ends the monitor. -/
theorem Monitored.apply {s : Scheduler} (h : s.Monitored) {op : Operation}
    (hop : op ≠ .stop) : (op.apply s).Monitored := by
  cases op with
  | init result =>
    have hkept := (s.initialize_kept result).1
    simpa only [Monitored, Operation.apply, hkept] using h
  | start spawn =>
    by_cases hpre : s.state.current = .preOp
    · have hbusy : (s.startWatchdog spawn).1 ≠ .ok () := by
        rw [ne_eq, startWatchdog_ok_iff]
        rintro (hnone | ⟨hidle, -⟩)
        · simp [Monitored, hnone] at h
        · exact hidle h
      have hsame := startWatchdog_of_monitored h spawn
      rw [Operation.apply, start_of_preOp hpre]
      revert hbusy hsame
      rcases s.startWatchdog spawn with ⟨result, s'⟩
      intro hbusy hsame
      cases result with
      | error e =>
        have hsame' : s' = s := hsame
        simpa only [hsame'] using h
      | ok u => exact absurd rfl hbusy
    · rwa [Operation.apply, Scheduler.start, if_pos hpre]
  | runCycle events =>
    have hkept := (s.runCycle_kept events).1
    simpa only [Monitored, Operation.apply, hkept] using h
  | enterFault => exact h
  | stop => exact absurd rfl hop
  | writeInputs f => exact h

end Scheduler

/-! ## Runs -/

/-- The scheduler of a watched run goes through the operations. -/
theorem foldl_next_scheduler (w : Watched) (ops : List Operation) :
    (ops.foldl Watched.next w).scheduler = ops.foldl Operation.apply w.scheduler := by
  induction ops generalizing w with
  | nil => rfl
  | cons op ops ih => exact ih (w.next op)

theorem watch_append (config : RuntimeConfig) (watchdog : Option Watchdog)
    (ops later : List Operation) :
    (watch config watchdog (ops ++ later)).scheduler =
      later.foldl Operation.apply (watch config watchdog ops).scheduler := by
  rw [watch, List.foldl_append, foldl_next_scheduler]
  rfl

/-- In every reachable RUN state the monitor of the watchdog runs. -/
theorem attended_watch (config : RuntimeConfig) (watchdog : Option Watchdog)
    (ops : List Operation) : (watch config watchdog ops).scheduler.Attended := by
  induction ops using List.reverseRecOn with
  | nil => exact fun hrun => by cases hrun
  | append_singleton ops op ih =>
    rw [watch_append]
    exact ih.apply op

/-- A run neither adds a watchdog nor takes it away. -/
theorem watch_watchdog_eq_none (config : RuntimeConfig) (watchdog : Option Watchdog)
    (ops : List Operation) :
    (watch config watchdog ops).scheduler.watchdog = none ↔ watchdog = none := by
  induction ops using List.reverseRecOn with
  | nil => exact Iff.rfl
  | append_singleton ops op ih =>
    rw [watch_append, ← ih]
    exact Scheduler.apply_watchdog_eq_none _ op

/-- Whatever happens without a stop, a monitor that runs goes on. -/
theorem monitored_foldl {s : Scheduler} (h : s.Monitored) {ops : List Operation}
    (hops : ∀ op ∈ ops, op ≠ .stop) : (ops.foldl Operation.apply s).Monitored := by
  induction ops generalizing s with
  | nil => exact h
  | cons op ops ih =>
    rw [List.foldl_cons]
    exact ih (h.apply (hops op List.mem_cons_self)) fun op' hmem =>
      hops op' (List.mem_cons_of_mem _ hmem)

/-- From every reachable FAULT state, recovery succeeds exactly if there is no watchdog, or its
monitor is not running and the thread can be created. -/
theorem recovers_iff (config : RuntimeConfig) (watchdog : Option Watchdog) (ops : List Operation)
    (spawn : Except String Unit)
    (hfault : (watch config watchdog ops).scheduler.state.current = .fault) :
    (watch config watchdog ops).scheduler.Recovers spawn ↔
      (watch config watchdog ops).scheduler.watchdog = none ∨
        ¬ (watch config watchdog ops).scheduler.Monitored ∧ spawn = .ok () :=
  Scheduler.recovers_of_fault_iff hfault spawn

/-- A scheduler that faults in BOOT recovers. -/
theorem recovers_boot :
    (watch ⟨10000000, 1000000, ⟨.fault, .allOff, ⟨3, 5⟩⟩⟩ (some .new)
      [.enterFault]).scheduler.Recovers (.ok ()) :=
  (recovers_iff _ _ _ (.ok ()) rfl).2 (.inr ⟨by decide, rfl⟩)

/-- A trap in the first cycle under a watchdog: `start` answers "Watchdog already running". -/
theorem recovers_fails :
    (watch ⟨10000000, 1000000, ⟨.fault, .allOff, ⟨3, 5⟩⟩⟩ (some .new)
        [.init (.ok ()), .start (.ok ()),
          .runCycle ⟨false, fun _ => .error (.wasmTrap "unreachable"), 0⟩
          ]).scheduler.state.current = .fault ∧
      ¬ (watch ⟨10000000, 1000000, ⟨.fault, .allOff, ⟨3, 5⟩⟩⟩ (some .new)
        [.init (.ok ()), .start (.ok ()),
          .runCycle ⟨false, fun _ => .error (.wasmTrap "unreachable"), 0⟩]).scheduler.Recovers
        (.ok ()) := by
  refine ⟨rfl, fun h => ?_⟩
  have hstart := h.2.1
  exact absurd hstart (by rw [Scheduler.start]; decide)

/-- After RUN, without a stop in between, a fault recovers exactly if there is no watchdog. -/
theorem recovers_after_run_iff (config : RuntimeConfig) (watchdog : Option Watchdog)
    (ops later : List Operation) (spawn : Except String Unit)
    (hrun : (watch config watchdog ops).scheduler.state.current = .run)
    (hlater : ∀ op ∈ later, op ≠ .stop)
    (hfault : (watch config watchdog (ops ++ later)).scheduler.state.current = .fault) :
    (watch config watchdog (ops ++ later)).scheduler.Recovers spawn ↔ watchdog = none := by
  have hnone := watch_watchdog_eq_none config watchdog (ops ++ later)
  rw [Scheduler.recovers_of_fault_iff hfault, hnone]
  rcases attended_watch config watchdog ops hrun with habsent | hmonitored
  · have hwatchdog : watchdog = none := (watch_watchdog_eq_none config watchdog ops).1 habsent
    simp [hwatchdog]
  · have hstill : (watch config watchdog (ops ++ later)).scheduler.Monitored := by
      rw [watch_append]
      exact monitored_foldl hmonitored hlater
    constructor
    · rintro (habsent | ⟨hidle, -⟩)
      · exact habsent
      · exact absurd hstill hidle
    · exact .inl

end VirtualPlc.Runtime

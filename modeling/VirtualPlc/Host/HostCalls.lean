import VirtualPlc.Control.Reading
import VirtualPlc.Host.Runs

/-!
# The budget of host calls

The counter is reset only when a step succeeds, so an execution starts with its full budget exactly
when no code has made a host call since the last successful step (`fullBudget_iff`). Within one
execution the first calls are let through, as many as the budget has left (`runEvents_grants`).
-/

set_option autoImplicit false

namespace VirtualPlc.Host

/-- Number of host calls in the budget. -/
def limit : Nat := defaultMaxHostCallsPerCycle.toNat

/-- Which of `calls` host calls are let through when `counted` have been counted before. -/
def grants (counted calls : Nat) : List Bool :=
  (List.range calls).map fun i => decide (counted + i < limit)

/-- An execution starts with its full budget, and exactly the first calls within it take effect. -/
def Execution.FullBudget (e : Execution) : Prop :=
  e.counted = 0 ∧ e.allowed = grants 0 e.allowed.length

/-- Adds the host calls of an entry; a successful step settles them. -/
def Entry.charge (calls : Nat) : Entry → Nat
  | .execution e => calls + e.allowed.length
  | .advanced => 0

/-- Host calls that code has made since the last successful step. -/
def charged (log : List Entry) : Nat := log.foldl Entry.charge 0

@[simp] theorem charged_nil : charged [] = 0 := rfl

@[simp] theorem charged_concat (log : List Entry) (entry : Entry) :
    charged (log ++ [entry]) = entry.charge (charged log) := by
  rw [charged, List.foldl_append]
  rfl

@[simp] theorem length_grants (counted calls : Nat) : (grants counted calls).length = calls := by
  rw [grants, List.length_map, List.length_range]

theorem grants_add (counted first rest : Nat) :
    grants counted (first + rest) =
      grants counted first ++ grants (min limit (counted + first)) rest := by
  rw [grants, List.range_add, List.map_append, List.map_map]
  refine congrArg (grants counted first ++ ·) (List.map_congr_left fun i _ => ?_)
  -- past the limit both sides refuse
  show decide (counted + (first + i) < limit) = decide (min limit (counted + first) + i < limit)
  rw [decide_eq_decide]
  omega

namespace Store

variable {s s' : Store} {exported : Option Nat}

/-- The counter never passes the limit. -/
structure WithinLimit (s : Store) : Prop where
  max : s.data.maxHostCallsPerCycle = defaultMaxHostCallsPerCycle
  count : s.data.hostCallCount.toNat ≤ limit

/-- What host calls do to the counter: `flags` of them were let through or not. -/
def Counts (s : Store) (flags : List Bool) (s' : Store) : Prop :=
  flags = grants s.data.hostCallCount.toNat flags.length ∧
    s'.data.hostCallCount.toNat = min limit (s.data.hostCallCount.toNat + flags.length)

theorem counts_nil (h : s.WithinLimit)
    (hcount : s'.data.hostCallCount = s.data.hostCallCount) : s.Counts [] s' := by
  refine ⟨rfl, ?_⟩
  rw [hcount]
  exact (Nat.min_eq_right h.count).symm

theorem hostCallCount_allowedCall (call : HostCall) :
    (s.allowedCall exported call).2.data.hostCallCount = s.data.hostCallCount := by
  rcases allowedCall_cases s exported call with
    h | ⟨handle, f, -, -, h⟩ | ⟨message, h⟩
  · rw [h]
  · rw [h]
    rfl
  · rw [h]
    rfl

theorem hostCall_counts (h : s.WithinLimit) (call : HostCall) :
    s.Counts [s.data.checkRateLimit.1] (s.hostCall exported call).2 := by
  have hmax : s.data.maxHostCallsPerCycle.toNat = limit := congrArg BitVec.toNat h.max
  have hcount := h.count
  by_cases hrefused : s.data.maxHostCallsPerCycle ≤ s.data.hostCallCount
  · have hge : limit ≤ s.data.hostCallCount.toNat := by
      rw [← hmax]
      exact hrefused
    rw [hostCall_refused call hrefused, HostState.checkRateLimit, if_pos hrefused]
    refine ⟨?_, ?_⟩
    · show [false] = [decide (s.data.hostCallCount.toNat + 0 < limit)]
      rw [decide_eq_false (by omega)]
    · show s.data.hostCallCount.toNat = min limit (s.data.hostCallCount.toNat + 1)
      omega
  · have hlt : s.data.hostCallCount.toNat < limit := by
      rw [← hmax]
      exact Nat.lt_of_not_le hrefused
    rw [hostCall_let_through call hrefused, HostState.checkRateLimit, if_neg hrefused]
    refine ⟨?_, ?_⟩
    · show [true] = [decide (s.data.hostCallCount.toNat + 0 < limit)]
      rw [decide_eq_true (by omega)]
    · have hsucc : (s.data.hostCallCount + 1).toNat = s.data.hostCallCount.toNat + 1 := by
        have hlimit : limit < 2 ^ 32 := by decide
        rw [BitVec.toNat_add]
        exact Nat.mod_eq_of_lt (by simp; omega)
      rw [hostCallCount_allowedCall]
      show (s.data.hostCallCount + 1).toNat = min limit (s.data.hostCallCount.toNat + 1)
      omega

theorem event_counts (h : s.WithinLimit) (e : Event) :
    s.Counts (s.allowed e) (s.event exported e) := by
  cases e with
  | store offset value => cases exported <;> exact counts_nil h rfl
  | grow size => cases exported <;> exact counts_nil h rfl
  | host call => exact hostCall_counts h call
  | tick => exact counts_nil h rfl

theorem Counts.withinLimit {flags : List Bool} (h : s.WithinLimit)
    (hmax : s'.data.maxHostCallsPerCycle = s.data.maxHostCallsPerCycle)
    (hcounts : s.Counts flags s') : s'.WithinLimit :=
  ⟨hmax.trans h.max, by rw [hcounts.2]; exact Nat.min_le_left _ _⟩

theorem Counts.append {s'' : Store} {first rest : List Bool} (hfirst : s.Counts first s')
    (hrest : s'.Counts rest s'') : s.Counts (first ++ rest) s'' := by
  refine ⟨?_, ?_⟩
  · rw [List.length_append, grants_add, ← hfirst.1, ← hfirst.2, ← hrest.1]
  · rw [hrest.2, hfirst.2, List.length_append]
    omega

/-- Which host calls of an execution are let through, and what they leave of the counter. -/
theorem runEvents_grants (exported : Option Nat) (h : s.WithinLimit) (events : List Event) :
    s.Counts (s.runEvents exported events).2.1 (s.runEvents exported events).2.2 := by
  induction events generalizing s with
  | nil => exact counts_nil h rfl
  | cons e rest ih =>
    rcases runEvents_cons s exported e rest with hrun | hrun
    · rw [hrun]
      exact counts_nil h rfl
    · rw [hrun]
      have hfirst : s.Counts (s.allowed e) (s.event exported e) := event_counts h e
      exact hfirst.append (ih (hfirst.withinLimit h (event_effect e).maxHostCalls))

/-! ## Runs -/

/-- The counter and every entry of the log agree with the calls charged to them. -/
structure Charged (s : Store) : Prop where
  max : s.data.maxHostCallsPerCycle = defaultMaxHostCallsPerCycle
  count : s.data.hostCallCount.toNat = min limit (charged s.log)
  entries : ∀ (before after : List Entry) (e : Execution), s.log = before ++ .execution e :: after →
    e.counted.toNat = min limit (charged before) ∧
      e.allowed = grants e.counted.toNat e.allowed.length

theorem Charged.execute (h : s.Charged) (code : Code) (owner : Nat) (x : Behaviour) :
    (s.execute code owner x).2.Charged := by
  have hwithin : s.WithinLimit := ⟨h.max, by rw [h.count]; exact Nat.min_le_left _ _⟩
  have hcounts := runEvents_grants (s.instances[owner]?).join hwithin x.events
  refine ⟨(s.execute_effect code owner x).maxHostCalls.trans h.max, ?_, ?_⟩
  · rw [log_execute, charged_concat]
    show (s.runEvents _ x.events).2.2.data.hostCallCount.toNat =
      min limit (charged s.log + (s.runEvents _ x.events).2.1.length)
    rw [hcounts.2, h.count]
    omega
  · intro before after e hlog
    rw [log_execute] at hlog
    rcases Control.split_concat hlog with ⟨rfl, he, -⟩ | ⟨after', -, hlog⟩
    · cases he
      exact ⟨h.count, hcounts.1⟩
    · exact h.entries before after' e hlog

/-- Every transition keeps the account. -/
theorem Charged.transition {max : BitVec 64} (h : s.Charged) (step : Transition max s s') :
    s'.Charged := by
  cases step with
  | quiet clock deadline log count maxHostCalls =>
    refine ⟨maxHostCalls.trans h.max, ?_, ?_⟩
    · rw [count, log, h.count]
    · rw [log]
      exact h.entries
  | tick => exact ⟨h.max, h.count, h.entries⟩
  | start owner x => exact h.execute .start owner x
  | call fuel function owner x =>
    have hset : ((s.setEpochDeadline (s.clock.counter + max)).setFuel fuel).Charged :=
      ⟨h.max, h.count, h.entries⟩
    exact hset.execute (.exported function) owner x
  | advance =>
    -- the reset of the counter is the entry that settles the account
    have hlog : s.advance.log = s.log ++ [.advanced] := rfl
    refine ⟨h.max, ?_, fun before after e h' => ?_⟩
    · rw [hlog, charged_concat]
      rfl
    · rw [hlog] at h'
      rcases Control.split_concat h' with ⟨-, he, -⟩ | ⟨after', -, hold⟩
      · cases he
      · exact h.entries before after' e hold

end Store

namespace WasmtimeHost

theorem charged_new (cycleTimeNs maxEpochsPerCycle fuelPerCycle : BitVec 64) (useFuel : Bool) :
    (WasmtimeHost.new cycleTimeNs maxEpochsPerCycle fuelPerCycle useFuel).store.Charged where
  max := rfl
  count := (Nat.min_zero limit).symm
  entries := fun before after e h => by
    have hnil : ([] : List Entry) = before ++ .execution e :: after := h
    exact absurd hnil.symm (by simp)

/-- In every run, all executions of `init`, `step` and `fault` code have their full budget exactly
when each of them starts with no host call made since the last successful step. -/
theorem fullBudget_iff (cycleTimeNs maxEpochsPerCycle fuelPerCycle : BitVec 64) (useFuel : Bool)
    (ops : List Op) :
    let log :=
      ((WasmtimeHost.new cycleTimeNs maxEpochsPerCycle fuelPerCycle useFuel).run ops).store.log
    (∀ (e : Execution) (function : Function), .execution e ∈ log → e.code = .exported function →
        e.FullBudget) ↔
      ∀ (before after : List Entry) (e : Execution) (function : Function),
        log = before ++ .execution e :: after → e.code = .exported function →
        charged before = 0 := by
  intro log
  have hcharged : (((WasmtimeHost.new cycleTimeNs maxEpochsPerCycle fuelPerCycle useFuel).run
      ops).store).Charged :=
    run_invariant (fun _ _ step h => h.transition step) (charged_new _ _ _ _) ops
  have hlimit : 0 < limit := by decide
  constructor
  · intro hfull before after e function hlog hcode
    have hmem : Entry.execution e ∈ log := by
      rw [hlog]
      exact List.mem_append_right _ List.mem_cons_self
    obtain ⟨hcounted, -⟩ := hcharged.entries before after e hlog
    rw [(hfull e function hmem hcode).1] at hcounted
    have hzero : (0 : BitVec 32).toNat = 0 := rfl
    omega
  · intro hsettled e function hmem hcode
    obtain ⟨before, after, hlog⟩ := List.append_of_mem hmem
    obtain ⟨hcounted, hallowed⟩ := hcharged.entries before after e hlog
    rw [hsettled before after e function hlog hcode, Nat.min_zero] at hcounted
    refine ⟨BitVec.eq_of_toNat_eq hcounted, ?_⟩
    rw [← hcounted]
    exact hallowed

/-- A step that calls the host and traps takes a call away from the fault code after it. -/
theorem fullBudget_fails :
    let ops : List Op :=
      [.step .zero (.trapping [.host (.writeDo 0 1)]), .fault (.returning [])]
    ¬ ∀ (e : Execution) (function : Function), .execution e ∈ (ready.run ops).store.log →
        e.code = .exported function → e.FullBudget := by
  intro ops hfull
  let e : Execution := ⟨.exported .fault, 0, 100, 1, []⟩
  have hmem : Entry.execution e ∈ (ready.run ops).store.log := by decide
  obtain ⟨hcounted, -⟩ := hfull e .fault hmem rfl
  exact absurd hcounted (by decide)

end WasmtimeHost

end VirtualPlc.Host

import VirtualPlc.Host.Engine
import VirtualPlc.Host.Executions
import Mathlib.Logic.Relation

/-!
# Runs of the host

A run is a list of operations in any order: loads, `init`, `step`, `fault`, reloads and ticks of the
epoch, with whatever the engine and the guest code do in each. `Transition` says once what they do
to the clock, the deadline, the host-call count and the log: an invariant of the transitions holds
after every run (`run_leads`).
-/

set_option autoImplicit false

namespace VirtualPlc.Host

open VirtualPlc.Runtime VirtualPlc.Word

/-- An operation on the host, with what the engine and the guest code do in it. -/
inductive Op where
  | load (compiled : Except String GuestModule)
  | init (start : Instantiation) (x : Behaviour)
  | step (inputs : ProcessData) (x : Behaviour)
  | fault (x : Behaviour)
  | reload (candidate : Except String GuestModule) (preserve : Bool) (start : Instantiation)
      (x : Behaviour)
  | tick

namespace WasmtimeHost

/-- The host after an operation. -/
def apply (h : WasmtimeHost) : Op → WasmtimeHost
  | .load compiled => (h.loadModule compiled).2
  | .init start x => (h.init start x).2
  | .step inputs x => (h.step inputs x).2
  | .fault x => (h.fault x).2
  | .reload candidate preserve start x => (h.reloadModule candidate preserve start x).2
  | .tick => h.incrementEpoch

/-- The host after a list of operations. -/
def run (h : WasmtimeHost) (ops : List Op) : WasmtimeHost := ops.foldl apply h

end WasmtimeHost

namespace Store

/-- The deadline that the host sets before a call, the new fuel, and the call. -/
def call (s : Store) (max fuel : BitVec 64) (function : Function) (owner : Nat) (x : Behaviour) :
    Store :=
  (((s.setEpochDeadline (s.clock.counter + max)).setFuel fuel).execute (.exported function)
    owner x).2

/-- The end of a successful step. -/
def advance (s : Store) : Store :=
  { s with data := s.data.advanceCycle, log := s.log ++ [.advanced] }

/-- What operations do to a store: something that neither touches the clock and the deadline nor
runs code, a tick, start code under the deadline of an earlier call, a call, and the end of a step.
-/
inductive Transition (max : BitVec 64) : Store → Store → Prop
  | quiet {s s' : Store} (clock : s'.clock = s.clock) (deadline : s'.deadline = s.deadline)
      (log : s'.log = s.log) (count : s'.data.hostCallCount = s.data.hostCallCount)
      (maxHostCalls : s'.data.maxHostCallsPerCycle = s.data.maxHostCallsPerCycle) :
      Transition max s s'
  | tick (s : Store) : Transition max s { s with clock := s.clock.tick }
  | start (s : Store) (owner : Nat) (x : Behaviour) :
      Transition max s (s.execute .start owner x).2
  | call (s : Store) (fuel : BitVec 64) (function : Function) (owner : Nat) (x : Behaviour) :
      Transition max s (s.call max fuel function owner x)
  | advance (s : Store) : Transition max s s.advance

end Store

namespace WasmtimeHost

open Relation Store

/-- The host comes to another one by transitions of its store. -/
structure Leads (h h' : WasmtimeHost) : Prop where
  maxEpochsPerCycle : h'.maxEpochsPerCycle = h.maxEpochsPerCycle
  path : ReflTransGen (Transition h.maxEpochsPerCycle) h.store h'.store

namespace Leads

variable {h h' h'' : WasmtimeHost}

theorem refl (h : WasmtimeHost) : Leads h h := ⟨rfl, .refl⟩

theorem trans (first : Leads h h') (second : Leads h' h'') : Leads h h'' := by
  refine ⟨second.maxEpochsPerCycle.trans first.maxEpochsPerCycle, first.path.trans ?_⟩
  rw [← first.maxEpochsPerCycle]
  exact second.path

theorem single (hmax : h'.maxEpochsPerCycle = h.maxEpochsPerCycle)
    (step : Transition h.maxEpochsPerCycle h.store h'.store) : Leads h h' :=
  ⟨hmax, .single step⟩

/-- Only fields of the host or memories change. -/
theorem of_quiet (hmax : h'.maxEpochsPerCycle = h.maxEpochsPerCycle)
    (hclock : h'.store.clock = h.store.clock) (hdeadline : h'.store.deadline = h.store.deadline)
    (hlog : h'.store.log = h.store.log)
    (hcount : h'.store.data.hostCallCount = h.store.data.hostCallCount)
    (hmaxHostCalls : h'.store.data.maxHostCallsPerCycle = h.store.data.maxHostCallsPerCycle) :
    Leads h h' :=
  .single hmax (.quiet hclock hdeadline hlog hcount hmaxHostCalls)

end Leads

theorem loadModule_leads (h : WasmtimeHost) (compiled : Except String GuestModule) :
    Leads h (h.loadModule compiled).2 := by
  cases compiled with
  | error e => exact .refl h
  | ok module => exact .of_quiet rfl rfl rfl rfl rfl rfl

theorem ensureFuel_leads (h : WasmtimeHost) : Leads h h.ensureFuel :=
  .of_quiet rfl rfl rfl rfl rfl rfl

theorem modifyMemory_leads (h : WasmtimeHost) (f : Memory → Memory) :
    Leads h (h.modifyMemory f) := by
  rw [modifyMemory]
  split
  · exact .of_quiet rfl rfl rfl rfl rfl rfl
  · exact .refl h

theorem call_leads (h : WasmtimeHost) (func : TypedFunc) (x : Behaviour) :
    Leads h (h.call func x).2 :=
  .single rfl (.call h.store h.fuelPerCycle func.function func.owner x)

theorem callIfPresent_leads (h : WasmtimeHost) (func : Option TypedFunc) (x : Behaviour) :
    Leads h (h.callIfPresent func x).2 := by
  cases func with
  | none => exact .refl h
  | some func => exact h.call_leads func x

theorem allocate_quiet (max : BitVec 64) (s : Store) (module : GuestModule) :
    Transition max s (s.allocate module) := by
  rw [allocate]
  split
  · exact .quiet rfl rfl rfl rfl rfl
  · exact .quiet rfl rfl rfl rfl rfl

/-- Instantiation adds a memory and an instance, then runs start code. -/
theorem instantiateStore_leads (h : WasmtimeHost) (module : GuestModule) (x : Instantiation) :
    Leads h { h with store := (h.store.instantiate module x).2 } := by
  rw [Store.instantiate]
  split
  · exact .refl h
  · have halloc : Leads h { h with store := h.store.allocate module } :=
      .single rfl (allocate_quiet _ _ module)
    dsimp only
    split
    · exact halloc
    · next behaviour _ =>
      exact halloc.trans (.single rfl (.start _ _ behaviour))

theorem instantiate_leads (h : WasmtimeHost) (x : Instantiation) :
    Leads h (h.instantiate x).2 := by
  rw [instantiate]
  split
  · exact .refl h
  · next module _ =>
    have hstore := (ensureFuel_leads h).trans (h.ensureFuel.instantiateStore_leads module x)
    dsimp only
    split
    · next _ s hs =>
      rw [hs] at hstore
      exact hstore
    · next owner s hs =>
      rw [hs] at hstore
      split
      · exact hstore
      · split
        · exact hstore.trans (.of_quiet rfl rfl rfl rfl rfl rfl)
        · exact hstore.trans (.of_quiet rfl rfl rfl rfl rfl rfl)

theorem ensureInstance_leads (h : WasmtimeHost) (x : Instantiation) :
    Leads h (h.ensureInstance x).2 := by
  rw [ensureInstance]
  split
  · exact .refl h
  · exact h.instantiate_leads x

theorem init_leads (h : WasmtimeHost) (start : Instantiation) (x : Behaviour) :
    Leads h (h.init start x).2 := by
  rw [init]
  split
  · exact .refl h
  · have hinstance := h.ensureInstance_leads start
    split
    · next _ _ hs =>
      rw [hs] at hinstance
      exact hinstance
    · next h₁ hs =>
      rw [hs] at hinstance
      have hcall := hinstance.trans (h₁.callIfPresent_leads h₁.initFn x)
      split
      · next _ _ hs =>
        rw [hs] at hcall
        exact hcall
      · next h₂ hs =>
        rw [hs] at hcall
        exact (hcall.trans (h₂.modifyMemory_leads _)).trans (.of_quiet rfl rfl rfl rfl rfl rfl)

theorem step_leads (h : WasmtimeHost) (inputs : ProcessData) (x : Behaviour) :
    Leads h (h.step inputs x).2 := by
  rw [step]
  split
  · exact .refl h
  · split
    · exact .refl h
    · exact .refl h
    · next stepFn _ _ =>
      have hwritten := h.modifyMemory_leads
        fun m => writeSystemInfo (copyInputsToWasm m inputs) h.stepInfo
      have hcall := hwritten.trans (call_leads _ stepFn x)
      dsimp only
      split
      · next _ _ hs =>
        rw [hs] at hcall
        exact hcall
      · next h₂ hs =>
        rw [hs] at hcall
        exact hcall.trans (.single rfl (.advance _))

theorem fault_leads (h : WasmtimeHost) (x : Behaviour) : Leads h (h.fault x).2 := by
  rw [fault]
  have hcall := h.callIfPresent_leads h.faultFn x
  split
  · next _ _ hs =>
    rw [hs] at hcall
    exact hcall
  · next h₁ hs =>
    rw [hs] at hcall
    exact hcall.trans (h₁.modifyMemory_leads _)

theorem prepareReload_leads (h : WasmtimeHost) (candidate : Except String GuestModule)
    (oldLen : Option Nat) (start : Instantiation) :
    Leads h (h.prepareReload candidate oldLen start).2 := by
  rw [prepareReload.eq_def]
  split
  · exact .refl h
  · next module =>
    split
    · exact .refl h
    · split
      · exact .refl h
      · have hstore := (ensureFuel_leads h).trans (h.ensureFuel.instantiateStore_leads module start)
        dsimp only
        split
        · next _ s hs =>
          rw [hs] at hstore
          exact hstore
        · next owner s hs =>
          rw [hs] at hstore
          exact hstore

theorem migrate_leads (h : WasmtimeHost) (old : Option Memory) (x : Behaviour) :
    Leads h (h.migrate old x).2 := by
  cases old with
  | none => exact h.callIfPresent_leads h.initFn x
  | some old => exact h.modifyMemory_leads (restoreBytes old)

theorem reloadModule_leads (h : WasmtimeHost) (candidate : Except String GuestModule)
    (preserve : Bool) (start : Instantiation) (x : Behaviour) :
    Leads h (h.reloadModule candidate preserve start x).2 := by
  rw [reloadModule]
  have hprepare := h.prepareReload_leads candidate ((h.preserved preserve).map Memory.size) start
  split
  · next _ _ hs =>
    rw [hs] at hprepare
    exact hprepare
  · next new h₁ hs =>
    rw [hs] at hprepare
    have hcommit : Leads h (h₁.commitReload new) :=
      hprepare.trans (.of_quiet rfl rfl rfl rfl rfl rfl)
    have hmigrate := hcommit.trans ((h₁.commitReload new).migrate_leads (h.preserved preserve) x)
    split
    · next _ _ hs =>
      rw [hs] at hmigrate
      exact hmigrate
    · next _ hs =>
      rw [hs] at hmigrate
      exact hmigrate.trans (.of_quiet rfl rfl rfl rfl rfl rfl)

/-- Every operation is made of transitions. -/
theorem apply_leads (h : WasmtimeHost) (op : Op) : Leads h (h.apply op) := by
  cases op with
  | load compiled => exact h.loadModule_leads compiled
  | init start x => exact h.init_leads start x
  | step inputs x => exact h.step_leads inputs x
  | fault x => exact h.fault_leads x
  | reload candidate preserve start x => exact h.reloadModule_leads candidate preserve start x
  | tick => exact .single rfl (.tick _)

/-- Every run is made of transitions. -/
theorem run_leads (h : WasmtimeHost) (ops : List Op) : Leads h (h.run ops) := by
  induction ops generalizing h with
  | nil => exact .refl h
  | cons op rest ih => exact (h.apply_leads op).trans (ih (h.apply op))

/-- An invariant of the transitions holds after every run. -/
theorem run_invariant {P : Store → Prop} {h : WasmtimeHost}
    (hstep : ∀ s s', Transition h.maxEpochsPerCycle s s' → P s → P s') (hstart : P h.store)
    (ops : List Op) : P (h.run ops).store := by
  generalize (h.run ops).store = final, (h.run_leads ops).path = path
  induction path with
  | refl => exact hstart
  | tail _ step ih => exact hstep _ _ step ih

/-- A host that has run `init` on a plain module. -/
def ready : WasmtimeHost :=
  (WasmtimeHost.new 1000000 100 0 false).run [.load (.ok .plain), .init .plain (.returning [])]

end WasmtimeHost

end VirtualPlc.Host

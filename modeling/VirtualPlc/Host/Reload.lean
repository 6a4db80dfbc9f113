import VirtualPlc.Host.Instances

/-!
# Hot reload

A reload is a transaction up to two defects: it commits before the new `init` runs, and start code
of a candidate whose `memory` export is no memory works on the old one. `transaction_iff` says that
nothing else goes wrong, in any reachable state and for any candidate.
-/

set_option autoImplicit false

namespace VirtualPlc.Host

open VirtualPlc.Runtime VirtualPlc.Word

namespace WasmtimeHost

open Store

variable {h h' : WasmtimeHost} {candidate : Except String GuestModule} {preserve : Bool}
  {start : Instantiation} {x : Behaviour}

/-- The old program is active, with its memory and its counters. -/
structure Unchanged (h h' : WasmtimeHost) : Prop where
  module : h'.module = h.module
  instanceHandle : h'.instanceHandle = h.instanceHandle
  memory : h'.memory = h.memory
  stepFn : h'.stepFn = h.stepFn
  initFn : h'.initFn = h.initFn
  faultFn : h'.faultFn = h.faultFn
  program : ∀ func, h.stepFn = some func →
    h'.store.instances[func.owner]? = h.store.instances[func.owner]?
  currentMemory : h'.currentMemory = h.currentMemory
  cycleCount : h'.store.data.cycleCount = h.store.data.cycleCount
  firstCycle : h'.store.data.firstCycle = h.store.data.firstCycle

/-- The memory of a candidate as its instantiation leaves it: its initial data, with what its start
code does to them. -/
def freshMemory (h : WasmtimeHost) (candidate : Except String GuestModule) (start : Instantiation) :
    Option Memory :=
  match candidate with
  | .error _ => none
  | .ok module => (h.instantiated module start).memoryAt (h.store.newMemory module)

/-- The new program is active and keeps the cycle count. A memory that is preserved is followed by
the fresh bytes of the new one. -/
def Reloaded (h h' : WasmtimeHost) (preserve : Bool) (fresh : Option Memory) : Prop :=
  h'.store.data.cycleCount = h.store.data.cycleCount ∧
    ∀ old, h.preserved preserve = some old →
      ∃ new m, fresh = some new ∧ h'.currentMemory = some m ∧ m.size = new.size ∧
        old.size ≤ m.size ∧ ∀ i, m.byte i = if i < old.size then old.byte i else new.byte i

/-- A reload either fails and changes nothing, or succeeds. -/
def Transaction (h : WasmtimeHost) (candidate : Except String GuestModule) (preserve : Bool)
    (start : Instantiation) (x : Behaviour) : Prop :=
  match h.reloadModule candidate preserve start x with
  | (.error _, h') => Unchanged h h'
  | (.ok (), h') => Reloaded h h' preserve (h.freshMemory candidate start)

/-- Where a reload calls the new `init` after its commit, that code returns. -/
def InitReturns (h : WasmtimeHost) (candidate : Except String GuestModule) (preserve : Bool)
    (start : Instantiation) (x : Behaviour) : Prop :=
  ∀ new h', h.prepareReload candidate ((h.preserved preserve).map Memory.size) start =
    (.ok new, h') →
    h.preserved preserve = none →
      ((h'.commitReload new).callIfPresent new.initFn x).1 = .ok ()

/-- Start code of a candidate whose `memory` export is no memory leaves the old memory alone. -/
def StartHarmless (h : WasmtimeHost) (candidate : Except String GuestModule)
    (start : Instantiation) : Prop :=
  ∀ module message, candidate = .ok module → module.step.named = true →
    module.memory = .mismatched message →
      (h.instantiated module start).memoryAt h.memory = h.currentMemory

/-- The instantiation of a candidate leaves everything but the old memory unchanged. -/
theorem unchanged_instantiated_iff (hvalid : h.Valid) (module : GuestModule) :
    Unchanged h { h with store := h.instantiated module start } ↔
      (h.instantiated module start).memoryAt h.memory = h.currentMemory := by
  refine ⟨fun hunchanged => hunchanged.currentMemory, fun hmemory => ?_⟩
  have hdata := h.ensureFuel.store.instantiate_data module start
  refine ⟨rfl, rfl, rfl, rfl, rfl, rfl, fun func hfunc => ?_, hmemory, hdata.1, hdata.2⟩
  exact (h.instantiated_extends module start).getElem?_instances (hvalid.stepFn func hfunc)

/-- The old memory is safe from a candidate that has a memory of its own. -/
theorem memoryAt_instantiated (hvalid : h.Valid) {module : GuestModule} {m : Memory}
    (hm : module.memory.get = .ok m) :
    (h.instantiated module start).memoryAt h.memory = h.currentMemory := by
  rw [currentMemory]
  cases hhandle : h.memory with
  | none => rfl
  | some handle =>
    have hlt : handle < h.ensureFuel.store.memories.length := hvalid.memory handle hhandle
    exact getElem?_memories_instantiate hm hlt

/-- Whether the module's `memory` export is one. -/
theorem memory_cases (module : GuestModule) (hnamed : module.memory.named = true) :
    (∃ m, module.memory.get = .ok m) ∨ ∃ message, module.memory = .mismatched message := by
  cases hmemory : module.memory with
  | missing message =>
    rw [hmemory] at hnamed
    cases hnamed
  | mismatched message => exact .inr ⟨message, rfl⟩
  | found m => exact .inl ⟨m, rfl⟩

/-- A failure after the instantiation of a candidate. -/
theorem unchanged_iff_startHarmless (hvalid : h.Valid) {module : GuestModule}
    (hstep : module.step.named = true) (hmemory : module.memory.named = true) :
    Unchanged h { h with store := h.instantiated module start } ↔
      h.StartHarmless (.ok module) start := by
  rw [unchanged_instantiated_iff hvalid]
  constructor
  · rintro hold _ message hmodule - -
    cases hmodule
    exact hold
  · intro hharmless
    rcases memory_cases module hmemory with ⟨m, hm⟩ | ⟨message, hmismatched⟩
    · exact memoryAt_instantiated hvalid hm
    · exact hharmless module message rfl hstep hmismatched

/-- The old bytes are followed by the fresh ones. -/
theorem reloaded_restore {module : GuestModule} {old : Memory} {new : Prepared}
    (hold : h.preserved preserve = some old)
    (hnew : h.Prepares module (some old.size) start new) :
    Reloaded h
      ((({ h with store := h.instantiated module start }.commitReload new).modifyMemory
        (restoreBytes old)).finishReload h.store.data.cycleCount) preserve
      (h.freshMemory (.ok module) start) := by
  refine ⟨rfl, fun old' hold' => ?_⟩
  rw [hold] at hold'
  cases hold'
  obtain ⟨fresh, hfresh, hsize⟩ := hnew.fresh
  have hcurrent : ({ h with store := h.instantiated module start }.commitReload
      new).currentMemory = some fresh := hfresh
  refine ⟨fresh, restoreBytes old fresh, ?_, ?_, rfl, hsize old.size rfl, fun i => rfl⟩
  · rw [freshMemory, hnew.memory]
    exact hfresh
  · exact currentMemory_modifyMemory (restoreBytes old) hcurrent

/-- Without a memory to preserve a reload that succeeds keeps the cycle count. -/
theorem reloaded_of_not_preserved (hnone : h.preserved preserve = none) (fresh : Option Memory) :
    Reloaded h (h'.finishReload h.store.data.cycleCount) preserve fresh := by
  refine ⟨rfl, fun old hold => ?_⟩
  rw [hnone] at hold
  cases hold

/-- A reload is a transaction exactly when neither defect strikes. -/
theorem transaction_iff_of_valid (hvalid : h.Valid) :
    h.Transaction candidate preserve start x ↔
      h.InitReturns candidate preserve start x ∧ h.StartHarmless candidate start := by
  rw [Transaction, WasmtimeHost.reloadModule, InitReturns]
  rcases h.prepareReload_cases candidate ((h.preserved preserve).map Memory.size) start with
    ⟨⟨e, hprepare⟩, hrefused⟩ | ⟨module, r, rfl, hstep, hmemory, hprepare, hnew⟩
  · -- refused before anything happens
    rw [hprepare]
    refine ⟨fun _ => ⟨?_, ?_⟩, fun _ => ?_⟩
    · intro new h' heq
      cases heq
    · intro module message hmodule hstep hmemory
      refine absurd ⟨module, hmodule, hstep, ?_⟩ hrefused
      rw [hmemory]
      rfl
    · exact ⟨rfl, rfl, rfl, rfl, rfl, rfl, fun _ _ => rfl, rfl, rfl, rfl⟩
  · rw [hprepare]
    cases r with
    | error e =>
      -- refused after the instantiation
      refine ⟨fun hunchanged => ⟨?_, ?_⟩, fun hcond => ?_⟩
      · intro new h' heq
        cases heq
      · exact (unchanged_iff_startHarmless hvalid hstep hmemory).1 hunchanged
      · exact (unchanged_iff_startHarmless hvalid hstep hmemory).2 hcond.2
    | ok new =>
      have hprepares := hnew new rfl
      have hharmless : h.StartHarmless (.ok module) start := by
        obtain ⟨m, hm, -⟩ := newMemory_eq_some hprepares.memory
        intro _ message hmodule _ hmismatched
        cases hmodule
        rw [hmismatched] at hm
        cases hm
      -- the instance is exchanged; old memory is restored, or `init` is called
      cases hold : h.preserved preserve with
      | some old =>
        rw [hold] at hprepares
        refine ⟨fun _ => ⟨?_, hharmless⟩, fun _ => reloaded_restore hold hprepares⟩
        intro _ _ _ hnone
        cases hnone
      | none =>
        let committed := { h with store := h.instantiated module start }.commitReload new
        have hmigrate : committed.migrate none x = committed.callIfPresent new.initFn x := rfl
        dsimp only
        rw [hmigrate]
        rcases hcall : committed.callIfPresent new.initFn x with ⟨r, h'⟩
        cases r with
        | error e =>
          -- the new instance is active although its `init` trapped
          have hkeeps := committed.callIfPresent_keeps new.initFn x
          rw [hcall] at hkeeps
          refine ⟨fun hunchanged => ?_, fun hcond => ?_⟩
          · have hactive : h.instanceHandle = some h.store.instances.length := by
              rw [← hprepares.owner]
              exact hunchanged.instanceHandle.symm.trans hkeeps.instanceHandle
            exact absurd (hvalid.instanceHandle _ hactive) (Nat.lt_irrefl _)
          · have hreturns := hcond.1 new _ rfl rfl
            rw [hcall] at hreturns
            cases hreturns
        | ok u =>
          refine ⟨fun _ => ⟨?_, hharmless⟩, fun _ => reloaded_of_not_preserved hold _⟩
          intro _ _ heq _
          cases heq
          rw [hcall]

/-- In every reachable state of the host, for every candidate, a reload is a transaction exactly
when the new `init`, where it is called, returns, and start code without a memory of its own leaves
the old memory alone. -/
theorem transaction_iff (cycleTimeNs maxEpochsPerCycle fuelPerCycle : BitVec 64) (useFuel : Bool)
    (ops : List Op) (candidate : Except String GuestModule) (preserve : Bool)
    (start : Instantiation) (x : Behaviour) :
    let h := (WasmtimeHost.new cycleTimeNs maxEpochsPerCycle fuelPerCycle useFuel).run ops
    h.Transaction candidate preserve start x ↔
      h.InitReturns candidate preserve start x ∧ h.StartHarmless candidate start :=
  transaction_iff_of_valid ((valid_new _ _ _ _).run ops)

/-- A candidate whose `init` traps stays active after the failed reload. -/
theorem transaction_fails : ¬ ready.Transaction (.ok .plain) false .plain (.trapping []) := by
  intro hunchanged
  have hinstance : some 1 = some 0 := hunchanged.instanceHandle
  exact absurd hinstance (by decide)

end WasmtimeHost

end VirtualPlc.Host

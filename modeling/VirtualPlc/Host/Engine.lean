import VirtualPlc.Host.Imports

/-!
# The Wasm host

Loading, initialising, stepping, faulting and reloading a module. What the engine decides is given
to each call: the result of compiling, of linking, and the behaviour of the code that runs.
Additions on `u64` wrap, as in a release build. Granting fuel fails only when fuel is not enabled,
and the host asks for it exactly when it is.
-/

set_option autoImplicit false

namespace VirtualPlc.Host

open VirtualPlc.Runtime VirtualPlc.Word

/-- An export that the host asks for: missing, of another type, or found. The first two carry what
the engine says of the request. -/
inductive Export (α : Type) where
  | missing (message : String)
  | mismatched (message : String)
  | found (value : α)

namespace Export

variable {α : Type}

/-- Whether the name is among the exports. -/
def named : Export α → Bool
  | missing _ => false
  | mismatched _ | found _ => true

/-- The export itself. -/
def get : Export α → Except String α
  | missing message | mismatched message => .error message
  | found value => .ok value

end Export

/-- A compiled module: its `step`, `init`, `fault` and `memory` exports, the memory with its initial
data. -/
structure GuestModule where
  step : Export Unit
  init : Export Unit
  fault : Export Unit
  memory : Export Memory

/-- What happens when a module is instantiated: linking, and the behaviour of its start function, if
it has one. -/
structure Instantiation where
  link : Except String Unit
  start : Option Behaviour

/-- A module with all exports and one page of zeros. -/
def GuestModule.plain : GuestModule :=
  ⟨.found (), .found (), .found (), .found (.zeroed 65536)⟩

/-- An instantiation without a start function. -/
def Instantiation.plain : Instantiation := ⟨.ok (), none⟩

/-- A function of an instance. -/
structure TypedFunc where
  owner : Nat
  function : Function
deriving DecidableEq, Repr

/-- `instance.get_typed_func`. -/
def getTypedFunc (owner : Nat) (function : Function) (e : Export Unit) : Except String TypedFunc :=
  e.get.map fun _ => ⟨owner, function⟩

namespace Store

/-- Adds the memory of a module with its initial data, if it exports one, and an instance. -/
def allocate (s : Store) (module : GuestModule) : Store :=
  match module.memory.get with
  | .ok m => { s with
      memories := s.memories ++ [m]
      instances := s.instances ++ [some s.memories.length] }
  | .error _ => { s with instances := s.instances ++ [none] }

/-- Instantiates a module: its memory and its instance are new, then its start function runs. -/
def instantiate (s : Store) (module : GuestModule) (x : Instantiation) :
    Except GuestError Nat × Store :=
  match x.link with
  | .error message => (.error ⟨.other, message⟩, s)
  | .ok () =>
    let owner := s.instances.length
    match x.start with
    | none => (.ok owner, s.allocate module)
    | some behaviour =>
      match (s.allocate module).execute .start owner behaviour with
      | (r, s) => (r.map fun _ => owner, s)

end Store

/-- The host. -/
structure WasmtimeHost where
  store : Store
  module : Option GuestModule
  instanceHandle : Option Nat
  memory : Option Nat
  stepFn : Option TypedFunc
  initFn : Option TypedFunc
  faultFn : Option TypedFunc
  maxEpochsPerCycle : BitVec 64
  cycleTimeNs : BitVec 64
  initialized : Bool
  processData : ProcessData
  fuelPerCycle : BitVec 64

namespace WasmtimeHost

/-- A new host; `useFuel` enables fuel. -/
def new (cycleTimeNs maxEpochsPerCycle fuelPerCycle : BitVec 64) (useFuel : Bool) :
    WasmtimeHost where
  store :=
    { memories := []
      instances := []
      data := .new cycleTimeNs
      fuel := if useFuel then some 0 else none
      clock := ⟨0, 0⟩
      deadline := 0
      log := [] }
  module := none
  instanceHandle := none
  memory := none
  stepFn := none
  initFn := none
  faultFn := none
  maxEpochsPerCycle := maxEpochsPerCycle
  cycleTimeNs := cycleTimeNs
  initialized := false
  processData := .zero
  fuelPerCycle := fuelPerCycle

/-- Loads a module, compiled or not. -/
def loadModule (h : WasmtimeHost) (compiled : Except String GuestModule) :
    Except String Unit × WasmtimeHost :=
  match compiled with
  | .error _ => (.error "Failed to compile Wasm module", h)
  | .ok module =>
    (.ok (), { h with
      module := some module
      instanceHandle := none
      memory := none
      stepFn := none
      initFn := none
      faultFn := none
      initialized := false })

/-- Grants the fuel of a cycle. -/
def ensureFuel (h : WasmtimeHost) : WasmtimeHost :=
  { h with store := h.store.setFuel h.fuelPerCycle }

/-- Sets the epoch deadline of the next call. -/
def setEpochDeadline (h : WasmtimeHost) : WasmtimeHost :=
  -- the engine adds its epoch to a sum that has the counter in it already
  { h with store := h.store.setEpochDeadline (h.store.clock.counter + h.maxEpochsPerCycle) }

/-- Calls a function under a new deadline and with new fuel. -/
def call (h : WasmtimeHost) (func : TypedFunc) (x : Behaviour) :
    Except GuestError Unit × WasmtimeHost :=
  let h := h.setEpochDeadline.ensureFuel
  match h.store.execute (.exported func.function) func.owner x with
  | (r, s) => (r, { h with store := s })

/-- Changes the memory of the module. -/
def modifyMemory (h : WasmtimeHost) (f : Memory → Memory) : WasmtimeHost :=
  match h.memory with
  | some handle => { h with store := h.store.modifyMemory handle f }
  | none => h

/-- The memory of the module. -/
def currentMemory (h : WasmtimeHost) : Option Memory := h.store.memoryAt h.memory

/-- Instantiates the loaded module. -/
def instantiate (h : WasmtimeHost) (x : Instantiation) : Except String Unit × WasmtimeHost :=
  match h.module with
  | none => (.error "No module loaded", h)
  | some module =>
    let h := h.ensureFuel
    match h.store.instantiate module x with
    | (.error _, s) => (.error "Failed to instantiate module", { h with store := s })
    | (.ok owner, s) =>
      let h := { h with store := s }
      match (s.instances[owner]?).join with
      | none => (.error "Module must export 'memory'", h)
      | some memory =>
        let h := { h with store := { s with data := s.data.setMemory memory } }
        match getTypedFunc owner .step module.step with
        | .error _ => (.error "Module must export 'step' function", h)
        | .ok stepFn =>
          (.ok (), { h with
            instanceHandle := some owner
            memory := some memory
            stepFn := some stepFn
            initFn := (getTypedFunc owner .init module.init).toOption
            faultFn := (getTypedFunc owner .fault module.fault).toOption })

/-- Instantiates where that has not been done. -/
def ensureInstance (h : WasmtimeHost) (x : Instantiation) : Except String Unit × WasmtimeHost :=
  match h.instanceHandle with
  | some _ => (.ok (), h)
  | none => h.instantiate x

/-- Calls an exported function where there is one. -/
def callIfPresent (h : WasmtimeHost) (func : Option TypedFunc) (x : Behaviour) :
    Except GuestError Unit × WasmtimeHost :=
  match func with
  | none => (.ok (), h)
  | some func => h.call func x

/-- Initialises the module: `start` is what its instantiation does, `x` what its `init` does. -/
def init (h : WasmtimeHost) (start : Instantiation) (x : Behaviour) :
    PlcResult Unit × WasmtimeHost :=
  if h.module.isNone then (.error (.config "No Wasm module loaded"), h)
  else
    match h.ensureInstance start with
    | (.error message, h) => (.error (.config message), h)
    | (.ok (), h) =>
      match h.callIfPresent h.initFn x with
      | (.error e, h) => (.error (.wasmTrap s!"init() failed: {e.message}"), h)
      | (.ok (), h) =>
        let info : WasmSystemInfo := ⟨h.cycleTimeNs, flagFirstCycle, 0, 0⟩
        (.ok (), { h.modifyMemory fun m => writeSystemInfo m info with initialized := true })

/-- The error of a step. -/
def stepError (h : WasmtimeHost) (e : GuestError) : PlcError :=
  match e.trap with
  | .outOfFuel => .cycleOverrun h.cycleTimeNs 0
  | .interrupt | .other => .wasmTrap s!"step() failed: {e.message}"

/-- The system information that a step writes. -/
def stepInfo (h : WasmtimeHost) : WasmSystemInfo :=
  ⟨h.cycleTimeNs, if h.store.data.firstCycle then flagFirstCycle else 0, h.store.data.cycleCount, 0⟩

/-- Executes one scan cycle. -/
def step (h : WasmtimeHost) (inputs : ProcessData) (x : Behaviour) :
    PlcResult ProcessData × WasmtimeHost :=
  if !h.initialized then (.error (.fault "Engine not initialized"), h)
  else
    match h.memory, h.stepFn with
    | none, _ => (.error (.fault "No memory available"), h)
    | some _, none => (.error (.fault "No step function"), h)
    | some _, some stepFn =>
      let info := h.stepInfo
      let h := h.modifyMemory fun m => writeSystemInfo (copyInputsToWasm m inputs) info
      match h.call stepFn x with
      | (.error e, h) => (.error (h.stepError e), h)
      | (.ok (), h) =>
        let outputs :=
          match h.currentMemory with
          | some m => copyOutputsFromWasm m h.processData
          | none => h.processData
        (.ok outputs, { h with store := { h.store with
          data := h.store.data.advanceCycle
          log := h.store.log ++ [.advanced] } })

/-- Handles a fault: runs the fault code, then zeroes the outputs and sets the fault flag. -/
def fault (h : WasmtimeHost) (x : Behaviour) : PlcResult Unit × WasmtimeHost :=
  match h.callIfPresent h.faultFn x with
  -- the outputs are left as they are
  | (.error e, h) => (.error (.wasmTrap s!"fault() failed: {e.message}"), h)
  | (.ok (), h) =>
    let info : WasmSystemInfo := ⟨h.cycleTimeNs, flagFaultMode, h.store.data.cycleCount, 1⟩
    (.ok (), h.modifyMemory fun m => writeSystemInfo (zeroOutputs m) info)

/-- Whether the host can step. -/
def isReady (h : WasmtimeHost) : Bool := h.initialized && h.instanceHandle.isSome

/-- A tick of the epoch ticker. -/
def incrementEpoch (h : WasmtimeHost) : WasmtimeHost :=
  { h with store := { h.store with clock := h.store.clock.tick } }

/-! ## Reloading -/

/-- What a reload has found out before it commits. -/
structure Prepared where
  module : GuestModule
  owner : Nat
  memory : Nat
  stepFn : TypedFunc
  initFn : Option TypedFunc
  faultFn : Option TypedFunc

/-- The checks of a new instance. `oldLen` is the size to be preserved, if any. -/
def checkInstance (s : Store) (module : GuestModule) (oldLen : Option Nat) (owner : Nat) :
    PlcResult Prepared :=
  match (s.instances[owner]?).join with
  | none => .error (.config "New module must export 'memory'")
  | some memory =>
    match getTypedFunc owner .step module.step with
    | .error e => .error (.config s!"New module must export 'step' function: {e}")
    | .ok stepFn =>
      let new : Prepared :=
        { module := module
          owner := owner
          memory := memory
          stepFn := stepFn
          initFn := (getTypedFunc owner .init module.init).toOption
          faultFn := (getTypedFunc owner .fault module.fault).toOption }
      let newLen := ((s.memoryAt (some memory)).map Memory.size).getD 0
      match oldLen with
      | none => .ok new
      | some oldLen =>
        if newLen < oldLen then
          .error (.config (s!"Cannot preserve memory: new module has smaller memory " ++
            s!"({newLen} bytes) than old ({oldLen} bytes)"))
        else .ok new

/-- The part of `reload_module` before the commit. -/
def prepareReload (h : WasmtimeHost) (candidate : Except String GuestModule)
    (oldLen : Option Nat) (start : Instantiation) : PlcResult Prepared × WasmtimeHost :=
  match candidate with
  | .error e => (.error (.config s!"Failed to compile new module: {e}"), h)
  | .ok module =>
    if !module.step.named then
      (.error (.config "New module missing required 'step' export"), h)
    else if !module.memory.named then
      (.error (.config "New module missing required 'memory' export"), h)
    else
      let h := h.ensureFuel
      match h.store.instantiate module start with
      | (.error e, s) =>
        (.error (.config s!"Failed to instantiate new module: {e.message}"), { h with store := s })
      | (.ok owner, s) => (checkInstance s module oldLen owner, { h with store := s })

/-- The commit of a reload. -/
def commitReload (h : WasmtimeHost) (new : Prepared) : WasmtimeHost :=
  { h with
    module := some new.module
    instanceHandle := some new.owner
    memory := some new.memory
    stepFn := some new.stepFn
    initFn := new.initFn
    faultFn := new.faultFn
    store := { h.store with data := h.store.data.setMemory new.memory } }

/-- Copies the old bytes over the first bytes of a memory. -/
def restoreBytes (old m : Memory) : Memory :=
  { m with byte := fun i => if i < old.size then old.byte i else m.byte i }

/-- Restores the old bytes into the new memory, or calls the new `init` where there are none. -/
def migrate (h : WasmtimeHost) (old : Option Memory) (x : Behaviour) :
    Except GuestError Unit × WasmtimeHost :=
  match old with
  | some old => (.ok (), h.modifyMemory (restoreBytes old))
  | none => h.callIfPresent h.initFn x

/-- The end of a reload. -/
def finishReload (h : WasmtimeHost) (savedCycleCount : BitVec 64) : WasmtimeHost :=
  { h with store := { h.store with
    data := { h.store.data with cycleCount := savedCycleCount, firstCycle := false } } }

/-- The memory that a reload preserves. -/
def preserved (h : WasmtimeHost) (preserve : Bool) : Option Memory :=
  if preserve then h.currentMemory else none

/-- Reloads a module: `start` is what its instantiation does, `x` what its `init` does. -/
def reloadModule (h : WasmtimeHost) (candidate : Except String GuestModule) (preserve : Bool)
    (start : Instantiation) (x : Behaviour) : PlcResult Unit × WasmtimeHost :=
  let old := h.preserved preserve
  let savedCycleCount := h.store.data.cycleCount
  match h.prepareReload candidate (old.map Memory.size) start with
  | (.error e, h) => (.error e, h)
  | (.ok new, h) =>
    match (h.commitReload new).migrate old x with
    -- the new module stays active
    | (.error e, h) => (.error (.wasmTrap s!"init() failed after reload: {e.message}"), h)
    | (.ok (), h) => (.ok (), h.finishReload savedCycleCount)

/-! ## Memory of the host -/

theorem currentMemory_modifyMemory {h : WasmtimeHost} {m : Memory} (f : Memory → Memory)
    (hm : h.currentMemory = some m) :
    (h.modifyMemory f).currentMemory = some (f m) := by
  rw [currentMemory] at hm
  rw [modifyMemory]
  cases hhandle : h.memory with
  | none =>
    rw [hhandle] at hm
    cases hm
  | some handle =>
    rw [hhandle] at hm
    show (h.store.memories.modify handle f)[handle]? = some (f m)
    rw [List.getElem?_modify_eq, show h.store.memories[handle]? = some m from hm]
    rfl

end WasmtimeHost

end VirtualPlc.Host

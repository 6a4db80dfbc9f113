import VirtualPlc.Host.Faulting
import VirtualPlc.Host.FirstCycle
import VirtualPlc.Host.IoPaths
import VirtualPlc.Runtime.EngineProtocol

/-!
# The scheduler and the Wasm host together

A plant is a scheduler whose engine is a Wasm host: each call that the scheduler makes is answered
by the host, and changes it. Modules are reloaded and epochs tick at any time. Over every run, a
running scheduler finds its host ready (`step_answered`), the two agree on the number of the cycle
(`cycles_agree`), and a cycle shows the program the inputs of the scheduler and publishes what the
program has left in its output regions (`cycle_contract`).
-/

set_option autoImplicit false

namespace VirtualPlc.Host

open VirtualPlc.Runtime VirtualPlc.Word

/-- What the module's code does in an operation: its start code, `init` or `step`, and `fault`. -/
structure Behaviours where
  start : Instantiation
  code : Behaviour
  fault : Behaviour

/-- A scheduler and the host that it drives. -/
structure Plant where
  scheduler : Scheduler
  host : WasmtimeHost

/-- An operation on a plant. -/
inductive PlantOp where
  | init (w : Behaviours)
  | start (spawn : Except String Unit)
  | cycle (timedOut : Bool) (executionTime : Nat) (w : Behaviours)
  | enterFault (w : Behaviours)
  | stop
  | writeInputs (f : ProcessData → ProcessData)
  | reload (candidate : Except String GuestModule) (preserve : Bool) (w : Behaviours)
  | tick

namespace Plant

/-- The host after a call of the scheduler. -/
def serve (w : Behaviours) (h : WasmtimeHost) : EngineCall → WasmtimeHost
  | .init _ => (h.init w.start w.code).2
  | .step inputs _ => (h.step inputs w.code).2
  | .fault => (h.fault w.fault).2

/-- The scheduler operates, and the host serves the calls that this makes. -/
def operate (p : Plant) (w : Behaviours) (op : Operation) : Plant where
  scheduler := op.apply p.scheduler
  host := ((op.apply p.scheduler).engine.drop p.scheduler.engine.length).foldl (serve w) p.host

/-- What a cycle finds: the host answers its step. -/
def events (p : Plant) (timedOut : Bool) (executionTime : Nat) (w : Behaviours) : CycleEvents where
  timedOut := timedOut
  step := fun inputs => (p.host.step inputs w.code).1
  executionTime := executionTime

/-- Behaviours of code that is not called. -/
def noCode : Behaviours := ⟨.plain, .returning [], .returning []⟩

/-- The next operation. -/
def next (p : Plant) : PlantOp → Plant
  | .init w => p.operate w (.init (p.host.init w.start w.code).1)
  | .start spawn => p.operate noCode (.start spawn)
  | .cycle timedOut executionTime w => p.operate w (.runCycle (p.events timedOut executionTime w))
  | .enterFault w => p.operate w .enterFault
  | .stop => p.operate noCode .stop
  | .writeInputs f => p.operate noCode (.writeInputs f)
  | .reload candidate preserve w =>
    { p with host := (p.host.reloadModule candidate preserve w.start w.code).2 }
  | .tick => { p with host := p.host.incrementEpoch }

/-- A new plant with a module loaded into its host. -/
def new (config : RuntimeConfig) (watchdog : Option Watchdog)
    (cycleTimeNs maxEpochsPerCycle fuelPerCycle : BitVec 64) (useFuel : Bool)
    (module : Except String GuestModule) : Plant where
  scheduler := { Scheduler.new config with watchdog := watchdog }
  host :=
    ((WasmtimeHost.new cycleTimeNs maxEpochsPerCycle fuelPerCycle useFuel).loadModule module).2

/-- A plant after some operations. -/
def run (p : Plant) (ops : List PlantOp) : Plant := ops.foldl next p

end Plant

/-! ## The parts of a host -/

namespace WasmtimeHost

variable {h h' : WasmtimeHost}

/-- An instance comes with a memory and a step function, and an initialised host has one. -/
structure Equipped (h : WasmtimeHost) : Prop where
  parts : h.instanceHandle.isSome = true → h.memory.isSome = true ∧ h.stepFn.isSome = true
  initialized : h.initialized = true → h.instanceHandle.isSome = true

/-- The same cycle time, and the same number of completed cycles. -/
structure SameCount (h h' : WasmtimeHost) : Prop where
  cycleTimeNs : h'.cycleTimeNs = h.cycleTimeNs
  cycleCount : h'.store.data.cycleCount = h.store.data.cycleCount

theorem SameCount.trans {h'' : WasmtimeHost} (first : SameCount h h') (second : SameCount h' h'') :
    SameCount h h'' :=
  ⟨second.cycleTimeNs.trans first.cycleTimeNs, second.cycleCount.trans first.cycleCount⟩

/-- The same parts and the same count. -/
structure SameParts (h h' : WasmtimeHost) : Prop where
  instanceHandle : h'.instanceHandle = h.instanceHandle
  memory : h'.memory = h.memory
  stepFn : h'.stepFn = h.stepFn
  initialized : h'.initialized = h.initialized
  count : SameCount h h'

theorem SameParts.refl (h : WasmtimeHost) : SameParts h h := ⟨rfl, rfl, rfl, rfl, rfl, rfl⟩

theorem SameParts.trans {h'' : WasmtimeHost} (first : SameParts h h') (second : SameParts h' h'') :
    SameParts h h'' :=
  ⟨second.instanceHandle.trans first.instanceHandle, second.memory.trans first.memory,
    second.stepFn.trans first.stepFn, second.initialized.trans first.initialized,
    first.count.trans second.count⟩

theorem Equipped.sameParts (hequipped : h.Equipped) (hsame : SameParts h h') : h'.Equipped where
  parts := by
    rw [hsame.instanceHandle, hsame.memory, hsame.stepFn]
    exact hequipped.parts
  initialized := by
    rw [hsame.initialized, hsame.instanceHandle]
    exact hequipped.initialized

theorem modifyMemory_sameParts (h : WasmtimeHost) (f : Memory → Memory) :
    SameParts h (h.modifyMemory f) := by
  rw [modifyMemory]
  split
  · exact ⟨rfl, rfl, rfl, rfl, rfl, rfl⟩
  · exact .refl h

/-- Guest code changes the store alone, and does not count cycles. -/
theorem call_sameParts (h : WasmtimeHost) (func : TypedFunc) (x : Behaviour) :
    SameParts h (h.call func x).2 :=
  ⟨rfl, rfl, rfl, rfl, rfl, (h.setEpochDeadline.ensureFuel.store.execute_effect
    (.exported func.function) func.owner x).cycleCount⟩

theorem callIfPresent_sameParts (h : WasmtimeHost) (func : Option TypedFunc) (x : Behaviour) :
    SameParts h (h.callIfPresent func x).2 := by
  cases func with
  | none => exact .refl h
  | some func => exact h.call_sameParts func x

theorem fault_sameParts (h : WasmtimeHost) (x : Behaviour) : SameParts h (h.fault x).2 := by
  rw [fault]
  have hcall := h.callIfPresent_sameParts h.faultFn x
  split
  · next _ _ hs =>
    rw [hs] at hcall
    exact hcall
  · next h₁ hs =>
    rw [hs] at hcall
    exact hcall.trans (h₁.modifyMemory_sameParts _)

theorem migrate_sameParts (h : WasmtimeHost) (old : Option Memory) (x : Behaviour) :
    SameParts h (h.migrate old x).2 := by
  cases old with
  | none => exact h.callIfPresent_sameParts h.initFn x
  | some old => exact h.modifyMemory_sameParts (restoreBytes old)

/-- An instantiation either changes the store alone or equips the host. -/
theorem instantiate_equipped (hequipped : h.Equipped) (x : Instantiation) :
    (h.instantiate x).2.Equipped ∧ SameCount h (h.instantiate x).2 ∧
      ((h.instantiate x).1 = .ok () → (h.instantiate x).2.instanceHandle.isSome = true) := by
  rw [instantiate]
  split
  · exact ⟨hequipped, ⟨rfl, rfl⟩, fun hok => by cases hok⟩
  · next module _ =>
    have hdata := (h.ensureFuel.store.instantiate_data module x).1
    dsimp only
    split
    · next _ s hs =>
      rw [hs] at hdata
      exact ⟨⟨hequipped.parts, hequipped.initialized⟩, ⟨rfl, hdata⟩, fun hok => by cases hok⟩
    · next owner s hs =>
      rw [hs] at hdata
      split
      · exact ⟨⟨hequipped.parts, hequipped.initialized⟩, ⟨rfl, hdata⟩, fun hok => by cases hok⟩
      · split
        · exact ⟨⟨hequipped.parts, hequipped.initialized⟩, ⟨rfl, hdata⟩, fun hok => by cases hok⟩
        · exact ⟨⟨fun _ => ⟨rfl, rfl⟩, fun _ => rfl⟩, ⟨rfl, hdata⟩, fun _ => rfl⟩

theorem ensureInstance_equipped (hequipped : h.Equipped) (x : Instantiation) :
    (h.ensureInstance x).2.Equipped ∧ SameCount h (h.ensureInstance x).2 ∧
      ((h.ensureInstance x).1 = .ok () → (h.ensureInstance x).2.instanceHandle.isSome = true) := by
  rw [ensureInstance]
  split
  · next hinstance => exact ⟨hequipped, ⟨rfl, rfl⟩, fun _ => by rw [hinstance]; rfl⟩
  · exact instantiate_equipped hequipped x

/-- `init` keeps a host equipped, and one that succeeds leaves it initialised. -/
theorem init_equipped (hequipped : h.Equipped) (start : Instantiation) (x : Behaviour) :
    (h.init start x).2.Equipped ∧ SameCount h (h.init start x).2 ∧
      ((h.init start x).1 = .ok () → (h.init start x).2.initialized = true) := by
  rw [init]
  split
  · exact ⟨hequipped, ⟨rfl, rfl⟩, fun hok => by cases hok⟩
  · have hinstance := ensureInstance_equipped hequipped start
    split
    · next _ _ hs =>
      rw [hs] at hinstance
      exact ⟨hinstance.1, hinstance.2.1, fun hok => by cases hok⟩
    · next h₁ hs =>
      rw [hs] at hinstance
      obtain ⟨hequipped₁, hcount, hsome⟩ := hinstance
      have hcall := h₁.callIfPresent_sameParts h₁.initFn x
      split
      · next _ _ hs =>
        rw [hs] at hcall
        exact ⟨hequipped₁.sameParts hcall, hcount.trans hcall.count, fun hok => by cases hok⟩
      · next h₂ hs =>
        rw [hs] at hcall
        have hwritten := hcall.trans (h₂.modifyMemory_sameParts fun m =>
          writeSystemInfo m ⟨h₂.cycleTimeNs, flagFirstCycle, 0, 0⟩)
        have hequipped₂ := hequipped₁.sameParts hwritten
        refine ⟨⟨hequipped₂.parts, fun _ => ?_⟩, hcount.trans ⟨hwritten.count.1, hwritten.count.2⟩,
          fun _ => rfl⟩
        show (h₂.modifyMemory _).instanceHandle.isSome = true
        rw [hwritten.instanceHandle]
        exact hsome rfl

/-- The ways a step of a host that is ready can end. -/
inductive StepOutcome (h : WasmtimeHost) (inputs : ProcessData) (x : Behaviour) : Prop where
  | failed (e : GuestError) (h' : WasmtimeHost) (hsame : SameParts h h')
      (heq : h.step inputs x = (.error (h'.stepError e), h'))
  | completed (outputs : ProcessData) (h' : WasmtimeHost) (hsame : SameParts h h')
      (hshown : ∀ m, h.currentMemory = some m → ∃ m', h'.currentMemory = some m' ∧
        m.size ≤ m'.size ∧ outputs = copyOutputsFromWasm m' h'.processData)
      (heq : h.step inputs x = (.ok outputs, { h' with store := h'.store.advance }))

theorem step_cases {func : TypedFunc} (hcalls : h.Calls func) (inputs : ProcessData)
    (x : Behaviour) : StepOutcome h inputs x := by
  obtain ⟨handle, hmemory⟩ := Option.isSome_iff_exists.mp hcalls.memory
  have hsame := (h.modifyMemory_sameParts fun m =>
    writeSystemInfo (copyInputsToWasm m inputs) h.stepInfo).trans (call_sameParts _ func x)
  rcases hcall : (h.modifyMemory fun m =>
    writeSystemInfo (copyInputsToWasm m inputs) h.stepInfo).call func x with ⟨r, h'⟩
  rw [hcall] at hsame
  cases r with
  | error e =>
    refine .failed e h' hsame ?_
    simp only [step, hcalls.initialized, hmemory, hcalls.stepFn, hcall, Bool.not_true,
      Bool.false_eq_true, if_false]
  | ok u =>
    have hstep : h.step inputs x = (.ok (h'.currentMemory.elim h'.processData fun m =>
        copyOutputsFromWasm m h'.processData), { h' with store := h'.store.advance }) := by
      simp only [step, hcalls.initialized, hmemory, hcalls.stepFn, hcall, Bool.not_true,
        Bool.false_eq_true, if_false]
      cases h'.currentMemory <;> rfl
    refine .completed _ h' hsame ?_ hstep
    intro m hm
    obtain ⟨m', hm', hle⟩ := currentMemory_callIfPresent (some func) x
      (currentMemory_preStep hm inputs)
    have hcurrent : h'.currentMemory = some m' := by
      rw [callIfPresent, hcall] at hm'
      exact hm'
    rw [size_preStepImage] at hle
    refine ⟨m', hcurrent, hle, ?_⟩
    rw [hcurrent]
    rfl

/-- A reload keeps a host equipped, whatever becomes of it, and the count of the cycles. -/
theorem reloadModule_equipped (hequipped : h.Equipped) (candidate : Except String GuestModule)
    (preserve : Bool) (start : Instantiation) (x : Behaviour) :
    (h.reloadModule candidate preserve start x).2.Equipped ∧
      SameCount h (h.reloadModule candidate preserve start x).2 ∧
      (h.reloadModule candidate preserve start x).2.initialized = h.initialized := by
  rw [reloadModule]
  rcases h.prepareReload_cases candidate ((h.preserved preserve).map Memory.size) start with
    ⟨⟨e, hprepare⟩, -⟩ | ⟨module, r, -, -, -, hprepare, -⟩
  · rw [hprepare]
    exact ⟨hequipped, ⟨rfl, rfl⟩, rfl⟩
  · have hdata := (h.ensureFuel.store.instantiate_data module start).1
    rw [hprepare]
    cases r with
    | error e => exact ⟨⟨hequipped.parts, hequipped.initialized⟩, ⟨rfl, hdata⟩, rfl⟩
    | ok new =>
      -- the new instance has all parts, also where its `init` fails
      have hcommitted : ({ h with store := h.instantiated module start }.commitReload
          new).Equipped := ⟨fun _ => ⟨rfl, rfl⟩, fun _ => rfl⟩
      have hmigrate := migrate_sameParts
        ({ h with store := h.instantiated module start }.commitReload new) (h.preserved preserve) x
      dsimp only
      split
      · next _ _ hs =>
        rw [hs] at hmigrate
        exact ⟨hcommitted.sameParts hmigrate, ⟨hmigrate.count.cycleTimeNs,
          hmigrate.count.cycleCount.trans hdata⟩, hmigrate.initialized⟩
      · next h₁ hs =>
        rw [hs] at hmigrate
        have hequipped₁ := hcommitted.sameParts hmigrate
        exact ⟨⟨hequipped₁.parts, hequipped₁.initialized⟩, ⟨hmigrate.count.cycleTimeNs, rfl⟩,
          hmigrate.initialized⟩

/-- The host is whole, works with this cycle time and has completed this many cycles. -/
structure Whole (h : WasmtimeHost) (cycleTimeNs n : BitVec 64) : Prop where
  equipped : h.Equipped
  valid : h.Valid
  cycleTimeNs : h.cycleTimeNs = cycleTimeNs
  cycleCount : h.store.data.cycleCount = n

variable {cycleTimeNs n : BitVec 64}

theorem Whole.calls (hwhole : h.Whole cycleTimeNs n) (hinitialized : h.initialized = true) :
    ∃ func, h.Calls func := by
  obtain ⟨hmemory, hstepFn⟩ := hwhole.equipped.parts (hwhole.equipped.initialized hinitialized)
  obtain ⟨func, hfunc⟩ := Option.isSome_iff_exists.mp hstepFn
  exact ⟨func, hinitialized, hmemory, hfunc⟩

theorem Whole.same (hwhole : h.Whole cycleTimeNs n) (hequipped : h'.Equipped) (hvalid : h'.Valid)
    (hcount : SameCount h h') : h'.Whole cycleTimeNs n :=
  ⟨hequipped, hvalid, hcount.cycleTimeNs.trans hwhole.cycleTimeNs,
    hcount.cycleCount.trans hwhole.cycleCount⟩

theorem Whole.fault (hwhole : h.Whole cycleTimeNs n) (x : Behaviour) :
    (h.fault x).2.Whole cycleTimeNs n := by
  have hsame := h.fault_sameParts x
  exact hwhole.same (hwhole.equipped.sameParts hsame) (hwhole.valid.keeps (h.fault_keeps x))
    hsame.count

theorem Whole.init (hwhole : h.Whole cycleTimeNs n) (start : Instantiation) (x : Behaviour) :
    (h.init start x).2.Whole cycleTimeNs n := by
  obtain ⟨hequipped, hcount, -⟩ := init_equipped hwhole.equipped start x
  exact hwhole.same hequipped (hwhole.valid.init start x) hcount

theorem Whole.reloadModule (hwhole : h.Whole cycleTimeNs n) (candidate : Except String GuestModule)
    (preserve : Bool) (start : Instantiation) (x : Behaviour) :
    (h.reloadModule candidate preserve start x).2.Whole cycleTimeNs n := by
  obtain ⟨hequipped, hcount, -⟩ :=
    reloadModule_equipped hwhole.equipped candidate preserve start x
  exact hwhole.same hequipped (hwhole.valid.reloadModule candidate preserve start x) hcount

/-- What a failed step of the program answers: it ran out of fuel, or it trapped. -/
inductive ProgramError (cycleTimeNs : BitVec 64) : PlcError → Prop where
  | fuel : ProgramError cycleTimeNs (.cycleOverrun cycleTimeNs 0)
  | trap (message : String) : ProgramError cycleTimeNs (.wasmTrap s!"step() failed: {message}")

theorem programError_stepError (h : WasmtimeHost) (e : GuestError) :
    ProgramError h.cycleTimeNs (h.stepError e) := by
  rw [stepError]
  cases e.trap with
  | outOfFuel => exact .fuel
  | interrupt | other => exact .trap e.message

/-- A step is the program's own: where it fails the program has failed, and it counts exactly when
it succeeds. -/
theorem Whole.step (hwhole : h.Whole cycleTimeNs n) (hinitialized : h.initialized = true)
    (inputs : ProcessData) (x : Behaviour) :
    (h.step inputs x).2.initialized = true ∧
      ((∃ e, (h.step inputs x).1 = .error e ∧ ProgramError cycleTimeNs e ∧
          (h.step inputs x).2.Whole cycleTimeNs n) ∨
        ∃ outputs, (h.step inputs x).1 = .ok outputs ∧
          (h.step inputs x).2.Whole cycleTimeNs (n + 1)) := by
  obtain ⟨func, hcalls⟩ := hwhole.calls hinitialized
  have hvalid := hwhole.valid.keeps (h.step_keeps inputs x)
  cases step_cases hcalls inputs x with
  | failed e h' hsame heq =>
    rw [heq] at hvalid ⊢
    refine ⟨hsame.initialized.trans hinitialized, .inl ⟨_, rfl, ?_, ?_⟩⟩
    · have herror := h'.programError_stepError e
      rwa [hsame.count.cycleTimeNs, hwhole.cycleTimeNs] at herror
    · exact hwhole.same (hwhole.equipped.sameParts hsame) hvalid hsame.count
  | completed outputs h' hsame _ heq =>
    rw [heq] at hvalid ⊢
    have hequipped := hwhole.equipped.sameParts hsame
    have hcycleTime := hsame.count.cycleTimeNs.trans hwhole.cycleTimeNs
    refine ⟨hsame.initialized.trans hinitialized, .inr ⟨outputs, rfl,
      ⟨hequipped.parts, hequipped.initialized⟩, hvalid, hcycleTime, ?_⟩⟩
    show h'.store.data.cycleCount + 1 = n + 1
    rw [hsame.count.cycleCount, hwhole.cycleCount]

end WasmtimeHost

/-! ## The plant -/

/-- An error in a recorded step is the program's own. -/
def Answered (cycleTimeNs : BitVec 64) (call : EngineCall) : Prop :=
  ∀ inputs e, call = .step inputs (.error e) → WasmtimeHost.ProgramError cycleTimeNs e

namespace Plant

variable {p : Plant} {cycleTimeNs : BitVec 64} {w : Behaviours}

theorem operate_eq {op : Operation} {calls : List EngineCall}
    (hengine : (op.apply p.scheduler).engine = p.scheduler.engine ++ calls) :
    p.operate w op = ⟨op.apply p.scheduler, calls.foldl (serve w) p.host⟩ := by
  rw [operate, hengine, List.drop_left]

/-- The scheduler may step its engine now, or once it has been started. -/
def Live (p : Plant) : Prop := p.scheduler.state.current = .preOp ∨ p.scheduler.state.current = .run

theorem not_live_enterFault (s : Scheduler) (h : WasmtimeHost) : ¬ Live ⟨s.enterFault, h⟩ := by
  have hfits := fits_enterFault s.state
  rintro (hstate | hstate)
  · rw [Scheduler.enterFault_state] at hstate
    rw [hstate] at hfits
    cases hfits
  · rw [Scheduler.enterFault_state] at hstate
    rw [hstate] at hfits
    cases hfits

/-- The host is whole, counts the cycles as the scheduler does, and is ready where the scheduler
may step it. -/
structure Sound (cycleTimeNs : BitVec 64) (p : Plant) : Prop where
  whole : p.host.Whole cycleTimeNs p.scheduler.cycleCount
  ready : p.Live → p.host.initialized = true
  answered : ∀ call ∈ p.scheduler.engine, Answered cycleTimeNs call

/-- An operation that calls nothing and makes nothing live. -/
theorem Sound.quiet (hsound : p.Sound cycleTimeNs) {op : Operation} {s : Scheduler}
    (happly : op.apply p.scheduler = s) (hengine : s.engine = p.scheduler.engine)
    (hcount : s.cycleCount = p.scheduler.cycleCount) (hlive : Live ⟨s, p.host⟩ → p.Live) :
    (p.operate w op).Sound cycleTimeNs := by
  subst happly
  rw [operate_eq (hengine.trans (List.append_nil _).symm)]
  refine ⟨?_, fun h => hsound.ready (hlive h), ?_⟩
  · show p.host.Whole cycleTimeNs (op.apply p.scheduler).cycleCount
    rw [hcount]
    exact hsound.whole
  · show ∀ call ∈ (op.apply p.scheduler).engine, _
    rw [hengine]
    exact hsound.answered

theorem answered_append {before calls : List EngineCall}
    (hbefore : ∀ call ∈ before, Answered cycleTimeNs call)
    (hcalls : ∀ call ∈ calls, Answered cycleTimeNs call) :
    ∀ call ∈ before ++ calls, Answered cycleTimeNs call := by
  intro call hmem
  rcases List.mem_append.1 hmem with h | h
  · exact hbefore call h
  · exact hcalls call h

theorem answered_init (result : PlcResult Unit) : Answered cycleTimeNs (.init result) := by
  intro inputs e heq
  cases heq

theorem answered_ok (inputs outputs : ProcessData) :
    ∀ call ∈ [EngineCall.step inputs (.ok outputs)], Answered cycleTimeNs call := by
  intro call hmem inputs' e heq
  rw [List.mem_singleton.1 hmem] at heq
  cases heq

theorem answered_fault : Answered cycleTimeNs .fault := by
  intro inputs e heq
  cases heq

theorem Sound.init (hsound : p.Sound cycleTimeNs) (w : Behaviours) :
    (p.next (.init w)).Sound cycleTimeNs := by
  show (p.operate w (.init (p.host.init w.start w.code).1)).Sound cycleTimeNs
  rcases p.scheduler.initializeScheduler_cases (p.host.init w.start w.code).1 with
    heq | ⟨-, state, heq, hstate⟩
  · exact hsound.quiet heq rfl rfl fun hlive => hlive
  · have happly : (Operation.init (p.host.init w.start w.code).1).apply p.scheduler =
        { p.scheduler with
          state := state
          engine := p.scheduler.engine ++ [.init (p.host.init w.start w.code).1] } := heq
    rw [operate_eq (congrArg Scheduler.engine happly), happly]
    refine ⟨hsound.whole.init w.start w.code, fun hlive => ?_, ?_⟩
    · obtain ⟨-, -, hok⟩ := WasmtimeHost.init_equipped hsound.whole.equipped w.start w.code
      rcases hstate with ⟨e, -, rfl⟩ | ⟨hresult, -⟩
      · rcases hlive with h | h <;> cases h
      · exact hok hresult
    · apply answered_append hsound.answered
      intro call hmem
      rw [List.mem_singleton.1 hmem]
      exact answered_init _

/-- What follows a fault: the engine has been told of it, and the plant is not live. -/
theorem sound_enterFault {s : Scheduler} {h : WasmtimeHost}
    (hwhole : h.Whole cycleTimeNs s.cycleCount)
    (hanswered : ∀ call ∈ s.engine, Answered cycleTimeNs call) (x : Behaviour) :
    Sound cycleTimeNs ⟨s.enterFault, (h.fault x).2⟩ := by
  refine ⟨hwhole.fault x, fun hlive => absurd hlive (not_live_enterFault s _), ?_⟩
  apply answered_append hanswered
  intro call hmem
  rw [List.mem_singleton.1 hmem]
  exact answered_fault

theorem Sound.cycle (hsound : p.Sound cycleTimeNs) (timedOut : Bool) (executionTime : Nat)
    (w : Behaviours) : (p.next (.cycle timedOut executionTime w)).Sound cycleTimeNs := by
  show (p.operate w (.runCycle (p.events timedOut executionTime w))).Sound cycleTimeNs
  have hnext : ∀ {s : Scheduler} {calls : List EngineCall},
      (p.scheduler.runCycle (p.events timedOut executionTime w)).2 = s →
      s.engine = p.scheduler.engine ++ calls →
        p.operate w (.runCycle (p.events timedOut executionTime w)) =
          ⟨s, calls.foldl (serve w) p.host⟩ := by
    rintro s calls rfl hengine
    exact operate_eq hengine
  -- a step is asked of a host that is ready
  have hstepped := fun hrun : p.scheduler.state.current = .run =>
    hsound.whole.step (hsound.ready (.inr hrun)) p.scheduler.io.readInputs w.code
  cases p.scheduler.runCycle_cases (p.events timedOut executionTime w) with
  | refused _ heq =>
    rw [hnext (congrArg Prod.snd heq) (List.append_nil _).symm]
    exact hsound
  | timeout _ _ heq =>
    rw [hnext (congrArg Prod.snd heq) p.scheduler.enterFault_engine]
    exact sound_enterFault hsound.whole hsound.answered w.fault
  | failed hrun _ e hstep heq =>
    rw [hnext (congrArg Prod.snd heq) (List.append_assoc _ _ _)]
    obtain ⟨-, ⟨e', he, herror, hwhole⟩ | ⟨outputs, hok, -⟩⟩ := hstepped hrun
    · obtain rfl : e = e' := Except.error.inj (hstep.symm.trans he)
      refine sound_enterFault (s := p.scheduler.asked p.scheduler.io.readInputs (.error e)) hwhole
        (answered_append hsound.answered ?_) w.fault
      intro call hmem inputs e' hcall
      rw [List.mem_singleton.1 hmem] at hcall
      cases hcall
      exact herror
    · cases hstep.symm.trans hok
  | overrun hrun _ outputs hstep _ heq =>
    rw [hnext (congrArg Prod.snd heq) (List.append_assoc _ _ _)]
    obtain ⟨-, ⟨e', he, -⟩ | ⟨outputs', hok, hwhole⟩⟩ := hstepped hrun
    · cases hstep.symm.trans he
    · exact sound_enterFault hwhole (answered_append hsound.answered (answered_ok _ outputs))
        w.fault
  | completed hrun _ outputs hstep _ heq =>
    rw [hnext (congrArg Prod.snd heq) rfl]
    obtain ⟨hinitialized, ⟨e', he, -⟩ | ⟨outputs', hok, hwhole⟩⟩ := hstepped hrun
    · cases hstep.symm.trans he
    · exact ⟨hwhole, fun _ => hinitialized,
        answered_append hsound.answered (answered_ok _ outputs)⟩

/-- Every operation keeps a plant sound. -/
theorem Sound.next (hsound : p.Sound cycleTimeNs) (op : PlantOp) :
    (p.next op).Sound cycleTimeNs := by
  cases op with
  | init w => exact hsound.init w
  | start spawn =>
    obtain ⟨wd, state, heq, hstate⟩ := p.scheduler.start_cases spawn
    refine hsound.quiet heq rfl rfl fun hlive => ?_
    rcases hstate with rfl | ⟨hpre, -⟩
    · exact hlive
    · exact .inl hpre
  | cycle timedOut executionTime w => exact hsound.cycle timedOut executionTime w
  | enterFault w =>
    have hengine : (Operation.enterFault.apply p.scheduler).engine =
        p.scheduler.engine ++ [.fault] := p.scheduler.enterFault_engine
    show (p.operate w .enterFault).Sound cycleTimeNs
    rw [operate_eq hengine]
    exact sound_enterFault hsound.whole hsound.answered w.fault
  | stop =>
    obtain ⟨wd, io, state, heq, hstate⟩ := p.scheduler.stop_cases
    refine hsound.quiet heq rfl rfl fun hlive => ?_
    rcases hstate with rfl | ⟨-, rfl⟩
    · exact hlive
    · rcases hlive with h | h <;> cases h
  | writeInputs f => exact hsound.quiet rfl rfl rfl fun hlive => hlive
  | reload candidate preserve w =>
    refine ⟨hsound.whole.reloadModule candidate preserve w.start w.code, fun hlive => ?_,
      hsound.answered⟩
    -- a reload says nothing of the initialisation, whether or not it takes the module
    obtain ⟨-, -, hinitialized⟩ :=
      WasmtimeHost.reloadModule_equipped hsound.whole.equipped candidate
      preserve w.start w.code
    exact hinitialized.trans (hsound.ready hlive)
  | tick =>
    have hequipped := hsound.whole.equipped
    exact ⟨hsound.whole.same ⟨hequipped.parts, hequipped.initialized⟩
      (hsound.whole.valid.keeps ⟨rfl, rfl, rfl, List.prefix_refl _, Nat.le_refl _⟩) ⟨rfl, rfl⟩,
      hsound.ready, hsound.answered⟩

/-- Every run keeps a plant sound. -/
theorem Sound.run (hsound : p.Sound cycleTimeNs) (ops : List PlantOp) :
    (p.run ops).Sound cycleTimeNs := by
  induction ops generalizing p with
  | nil => exact hsound
  | cons op rest ih => exact ih (hsound.next op)

theorem sound_new (config : RuntimeConfig) (watchdog : Option Watchdog)
    (cycleTimeNs maxEpochsPerCycle fuelPerCycle : BitVec 64) (useFuel : Bool)
    (module : Except String GuestModule) :
    (new config watchdog cycleTimeNs maxEpochsPerCycle fuelPerCycle useFuel module).Sound
      cycleTimeNs := by
  have hvalid :=
    (WasmtimeHost.valid_new cycleTimeNs maxEpochsPerCycle fuelPerCycle useFuel).loadModule
    module
  refine ⟨⟨?_, hvalid, ?_, ?_⟩, ?_, fun call hmem => by cases hmem⟩
  · cases module <;> exact ⟨fun hnone => (by cases hnone), fun hnone => (by cases hnone)⟩
  · cases module <;> rfl
  · cases module <;> rfl
  · rintro (h | h) <;> cases h

/-- In every run a scheduler that may step its host finds it ready, and a step that fails has failed
in the program: it has trapped or run out of fuel, and the host has never refused to run it. -/
theorem step_answered (config : RuntimeConfig) (watchdog : Option Watchdog)
    (cycleTimeNs maxEpochsPerCycle fuelPerCycle : BitVec 64) (useFuel : Bool)
    (module : Except String GuestModule) (ops : List PlantOp) :
    let p := (new config watchdog cycleTimeNs maxEpochsPerCycle fuelPerCycle useFuel module).run ops
    (p.Live → p.host.isReady = true) ∧
      ∀ inputs e, EngineCall.step inputs (.error e) ∈ p.scheduler.engine →
        WasmtimeHost.ProgramError cycleTimeNs e := by
  intro p
  have hsound : p.Sound cycleTimeNs := (sound_new _ _ _ _ _ _ _).run ops
  refine ⟨fun hlive => ?_, fun inputs e hmem => hsound.answered _ hmem inputs e rfl⟩
  have hinitialized := hsound.ready hlive
  rw [WasmtimeHost.isReady, hinitialized, hsound.whole.equipped.initialized hinitialized]
  rfl

/-- In every run the host and the scheduler agree on the number of cycles: through faults and new
initialisations, and through reloads, successful or not. -/
theorem cycles_agree (config : RuntimeConfig) (watchdog : Option Watchdog)
    (cycleTimeNs maxEpochsPerCycle fuelPerCycle : BitVec 64) (useFuel : Bool)
    (module : Except String GuestModule) (ops : List PlantOp) :
    let p := (new config watchdog cycleTimeNs maxEpochsPerCycle fuelPerCycle useFuel module).run ops
    p.host.store.data.cycleCount = p.scheduler.cycleCount :=
  ((sound_new _ _ _ _ _ _ _).run ops).whole.cycleCount

/-- The outputs that a memory holds. -/
def outputsOf (m : Memory) : FieldbusOutputs where
  digital := BitVec.ofNat 32 (m.value doOffset 4)
  analog := Vector.ofFn fun i => BitVec.ofNat 16 (m.value (aoOffset + i.val * 2) 2)

/-- A cycle that gives a result has stepped the host. -/
theorem next_cycle_ok {timedOut : Bool} {executionTime : Nat} {w : Behaviours}
    {result : CycleResult}
    (hok : (p.scheduler.runCycle (p.events timedOut executionTime w)).1 = .ok result) :
    p.scheduler.state.current = .run ∧
      ∃ outputs, (p.host.step p.scheduler.io.readInputs w.code).1 = .ok outputs ∧
        p.next (.cycle timedOut executionTime w) =
          ⟨(p.scheduler.asked p.scheduler.io.readInputs (.ok outputs)).publish outputs,
            (p.host.step p.scheduler.io.readInputs w.code).2⟩ := by
  cases p.scheduler.runCycle_cases (p.events timedOut executionTime w) with
  | refused _ heq | timeout _ _ heq | failed _ _ _ _ heq | overrun _ _ _ _ _ heq =>
    rw [heq] at hok
    cases hok
  | completed hrun _ outputs hstep _ heq =>
    refine ⟨hrun, outputs, hstep, ?_⟩
    have happly : (Operation.runCycle (p.events timedOut executionTime w)).apply p.scheduler =
        (p.scheduler.asked p.scheduler.io.readInputs (.ok outputs)).publish outputs :=
      congrArg Prod.snd heq
    show p.operate w _ = _
    rw [operate_eq (congrArg Scheduler.engine happly), happly]
    rfl

/-- In every run, a cycle of a running plant calls the program on a memory that shows the inputs of
the scheduler and the number of its cycles. Where it succeeds, the published outputs are those that
the program has left in its memory. -/
theorem cycle_contract (config : RuntimeConfig) (watchdog : Option Watchdog)
    (cycleTimeNs maxEpochsPerCycle fuelPerCycle : BitVec 64) (useFuel : Bool)
    (module : Except String GuestModule) (ops : List PlantOp) :
    let p := (new config watchdog cycleTimeNs maxEpochsPerCycle fuelPerCycle useFuel module).run ops
    p.scheduler.state.current = .run → ∃ m, p.host.currentMemory = some m ∧
      (userDataOffset ≤ m.size →
        (∃ shown, (p.host.entered p.scheduler.io.readInputs).currentMemory = some shown ∧
          Presents shown p.scheduler.io.readInputs
            ⟨cycleTimeNs, if p.host.store.data.firstCycle then
            flagFirstCycle else 0, p.scheduler.cycleCount, 0⟩) ∧
        ∀ timedOut executionTime w result,
          (p.scheduler.runCycle (p.events timedOut executionTime w)).1 = .ok result →
            ∃ left, (p.next (.cycle timedOut executionTime w)).host.currentMemory = some left ∧
              (p.next (.cycle timedOut executionTime w)).scheduler.io.readOutputs.fieldbusOutputs =
                outputsOf left) := by
  intro p hrun
  have hsound : p.Sound cycleTimeNs := (sound_new _ _ _ _ _ _ _).run ops
  -- in RUN the host has an instance with a step function, and its memory
  obtain ⟨func, hcalls⟩ := hsound.whole.calls (hsound.ready (.inr hrun))
  obtain ⟨m, hm⟩ := hsound.whole.valid.currentMemory_of_calls hcalls
  refine ⟨m, hm, fun hroom => ⟨?_, ?_⟩⟩
  · have hinfo : p.host.stepInfo = ⟨cycleTimeNs, if p.host.store.data.firstCycle then flagFirstCycle
        else 0, p.scheduler.cycleCount, 0⟩ := by
      rw [WasmtimeHost.stepInfo, hsound.whole.cycleTimeNs, hsound.whole.cycleCount]
    have hpresents := presents_preStepImage p.scheduler.io.readInputs p.host.stepInfo hroom
    rw [hinfo] at hpresents
    refine ⟨_, ?_, hpresents⟩
    rw [← hinfo]
    exact WasmtimeHost.currentMemory_preStep hm _
  · intro timedOut executionTime w result hok
    obtain ⟨-, outputs, hstep, hnext⟩ := next_cycle_ok hok
    rw [hnext]
    cases WasmtimeHost.step_cases hcalls p.scheduler.io.readInputs w.code with
    | failed e h' _ heq =>
      rw [heq] at hstep
      cases hstep
    | completed outputs' h' _ hshown heq =>
      rw [heq] at hstep ⊢
      obtain rfl : outputs' = outputs := Except.ok.inj hstep
      obtain ⟨left, hleft, hle, houtputs⟩ := hshown m hm
      refine ⟨left, hleft, ?_⟩
      rw [Scheduler.publish_published, houtputs, copyOutputsFromWasm_eq _ (by
        simp only [userDataOffset] at hroom
        simp only [sysinfoOffset]
        omega)]
      simp [ProcessData.fieldbusOutputs, outputsOf]

/-- The first cycle of a plant, with a program that switches an output on. -/
theorem cycle_contract_first :
    let p := (new ⟨1000, 10, ⟨.warn, .allOff, ⟨3, 2⟩⟩⟩ none 1000 100 0 false (.ok .plain)).run
      [.init noCode, .start (.ok ())]
    let w : Behaviours := ⟨.plain, .returning [.host (.writeDo 3 1)], .returning []⟩
    (∃ shown, (p.host.entered p.scheduler.io.readInputs).currentMemory = some shown ∧
        Presents shown p.scheduler.io.readInputs ⟨1000, flagFirstCycle, 0, 0⟩) ∧
      ∃ left, (p.next (.cycle false 0 w)).host.currentMemory = some left ∧
        (p.next (.cycle false 0 w)).scheduler.io.readOutputs.fieldbusOutputs = outputsOf left := by
  intro p w
  obtain ⟨m, hm, hcontract⟩ := cycle_contract ⟨1000, 10, ⟨.warn, .allOff, ⟨3, 2⟩⟩⟩ none 1000 100 0
    false (.ok .plain) [.init noCode, .start (.ok ())] rfl
  have hroom : userDataOffset ≤ m.size := by
    cases hm
    decide
  obtain ⟨hshown, hleft⟩ := hcontract hroom
  exact ⟨hshown, hleft false 0 w ⟨0, false, 1⟩ rfl⟩

end Plant

end VirtualPlc.Host

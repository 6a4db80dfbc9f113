import VirtualPlc.Host.InputRegions
import VirtualPlc.Host.Instances

/-!
# The first-cycle flag

A step tells the program in two ways whether it is the first one: by a flag in the system
information and through `is_first_cycle`. Both follow the host state, where a completed step and a
reload clear the flag and nothing sets it again, `init` included. `everyStepTells_iff` says what
comes of that: the flag is right except in a host that has stepped or been reloaded before, between
its `init` and the next completed step.
-/

set_option autoImplicit false

namespace VirtualPlc.Host

open VirtualPlc.Runtime VirtualPlc.Word VirtualPlc.Wasm

/-- What an operation has achieved. -/
inductive Outcome where
  | initialized
  | stepped
  | reloaded
  | other
deriving DecidableEq, Repr

namespace Outcome

/-- Whether the host takes its flag back. -/
def clears : Outcome → Bool
  | stepped | reloaded => true
  | initialized | other => false

/-- What has happened since the last successful `init`, the latest first. -/
def sinceInit (history : List Outcome) : List Outcome :=
  history.reverse.takeWhile (· ≠ initialized)

/-- Whether the next step is the first one since the last successful `init`. -/
def isFirst (history : List Outcome) : Bool := !(sinceInit history).contains stepped

/-- No step has completed and no reload has succeeded, ever. -/
def Untouched (history : List Outcome) : Prop := stepped ∉ history ∧ reloaded ∉ history

theorem isFirst_eq_false_iff (history : List Outcome) :
    isFirst history = false ↔ stepped ∈ sinceInit history := by
  rw [isFirst, Bool.not_eq_false', List.contains_iff_mem]

/-- Where no step has completed at all, none has since the last `init`. -/
theorem Untouched.isFirst {history : List Outcome} (h : Untouched history) :
    isFirst history = true := by
  refine Bool.eq_true_of_not_eq_false fun hfalse => h.1 ?_
  have hmem := (isFirst_eq_false_iff history).mp hfalse
  exact List.mem_reverse.mp ((List.takeWhile_prefix _).subset hmem)

theorem untouched_iff (history : List Outcome) :
    Untouched history ↔ history.any clears = false := by
  rw [Untouched, List.any_eq_false]
  constructor
  · rintro ⟨hstepped, hreloaded⟩ outcome hmem hclears
    cases outcome with
    | stepped => exact hstepped hmem
    | reloaded => exact hreloaded hmem
    | initialized => cases hclears
    | other => cases hclears
  · intro h
    exact ⟨fun hmem => h _ hmem rfl, fun hmem => h _ hmem rfl⟩

end Outcome

/-- The flag in the system information of a memory that has room for it. -/
def firstCycleFlag (m : Memory) : Bool :=
  decide (sysinfoOffset + sysinfoSize ≤ m.size) &&
    BitVec.ofNat 32 (m.value (sysinfoOffset + 4) 4) &&& flagFirstCycle != 0

namespace WasmtimeHost

open Store

variable {h : WasmtimeHost}

/-- What an operation achieves. -/
def outcome (h : WasmtimeHost) : Op → Outcome
  | .init start x => if (h.init start x).1.isOk then .initialized else .other
  | .step inputs x => if (h.step inputs x).1.isOk then .stepped else .other
  | .reload candidate preserve start x =>
    if (h.reloadModule candidate preserve start x).1.isOk then .reloaded else .other
  | .load _ | .fault _ | .tick => .other

/-- What the operations of a run achieve. -/
def history (h : WasmtimeHost) : List Op → List Outcome
  | [] => []
  | op :: rest => h.outcome op :: (h.apply op).history rest

/-- A step gets as far as calling this function of the program. -/
structure Calls (h : WasmtimeHost) (func : TypedFunc) : Prop where
  initialized : h.initialized = true
  memory : h.memory.isSome = true
  stepFn : h.stepFn = some func

/-- The host as a step calls the program. -/
def entered (h : WasmtimeHost) (inputs : ProcessData) : WasmtimeHost :=
  (h.modifyMemory fun m =>
    writeSystemInfo (copyInputsToWasm m inputs) h.stepInfo).setEpochDeadline.ensureFuel

/-- The store at some point of a step, after these events of the program. -/
def during (h : WasmtimeHost) (inputs : ProcessData) (func : TypedFunc) (events : List Event) :
    Store :=
  ((h.entered inputs).store.runEvents ((h.entered inputs).store.instances[func.owner]?).join
    events).2.2

/-- A step tells the program this: by the flag in memory as it starts, and through `is_first_cycle`
at any point where the limit of host calls has not been reached. -/
structure Tells (h : WasmtimeHost) (inputs : ProcessData) (func : TypedFunc) (first : Bool) :
    Prop where
  memory : ∃ m, (h.entered inputs).currentMemory = some m ∧ firstCycleFlag m = first
  answer : ∀ (events : List Event) (exported : Option Nat),
    (h.during inputs func events).data.hostCallCount <
        (h.during inputs func events).data.maxHostCallsPerCycle →
      ((h.during inputs func events).hostCall exported .isFirstCycle).1 =
        [.i32 (if first then 1 else 0)]

/-- The memory has room for the system information. -/
def HasRoom (h : WasmtimeHost) : Prop :=
  ∃ m, h.currentMemory = some m ∧ sysinfoOffset + sysinfoSize ≤ m.size

/-- Every step of a run that calls the program, with what has happened before. -/
def EveryStep (h : WasmtimeHost) (ops : List Op)
    (P : WasmtimeHost → List Outcome → ProcessData → TypedFunc → Prop) : Prop :=
  ∀ before inputs x after, ops = before ++ .step inputs x :: after →
    ∀ func, (h.run before).Calls func → P (h.run before) (h.history before) inputs func

/-! ## The flag of the host -/

/-- Guest code leaves the flag of the host alone. -/
theorem call_firstCycle (h : WasmtimeHost) (func : TypedFunc) (x : Behaviour) :
    (h.call func x).2.store.data.firstCycle = h.store.data.firstCycle :=
  (h.setEpochDeadline.ensureFuel.store.execute_effect (.exported func.function) func.owner
    x).firstCycle

theorem callIfPresent_firstCycle (h : WasmtimeHost) (func : Option TypedFunc) (x : Behaviour) :
    (h.callIfPresent func x).2.store.data.firstCycle = h.store.data.firstCycle := by
  cases func with
  | none => rfl
  | some func => exact h.call_firstCycle func x

@[simp] theorem data_modifyMemory (h : WasmtimeHost) (f : Memory → Memory) :
    (h.modifyMemory f).store.data = h.store.data := by
  rw [modifyMemory]
  split
  · rfl
  · rfl

theorem instantiate_firstCycle (h : WasmtimeHost) (x : Instantiation) :
    (h.instantiate x).2.store.data.firstCycle = h.store.data.firstCycle := by
  rw [instantiate]
  split
  · rfl
  · next module _ =>
    have hdata := (h.ensureFuel.store.instantiate_data module x).2
    dsimp only
    split
    · next _ s hs =>
      rw [hs] at hdata
      exact hdata
    · next owner s hs =>
      rw [hs] at hdata
      split
      · exact hdata
      · split
        · exact hdata
        · exact hdata

theorem ensureInstance_firstCycle (h : WasmtimeHost) (x : Instantiation) :
    (h.ensureInstance x).2.store.data.firstCycle = h.store.data.firstCycle := by
  rw [ensureInstance]
  split
  · rfl
  · exact h.instantiate_firstCycle x

/-- `init` leaves the flag of the host as it is, successful or not. -/
theorem init_firstCycle (h : WasmtimeHost) (start : Instantiation) (x : Behaviour) :
    (h.init start x).2.store.data.firstCycle = h.store.data.firstCycle := by
  rw [init]
  split
  · rfl
  · have hinstance := h.ensureInstance_firstCycle start
    split
    · next _ _ hs =>
      rw [hs] at hinstance
      exact hinstance
    · next h₁ hs =>
      rw [hs] at hinstance
      have hcall := (h₁.callIfPresent_firstCycle h₁.initFn x).trans hinstance
      split
      · next _ _ hs =>
        rw [hs] at hcall
        exact hcall
      · next h₂ hs =>
        rw [hs] at hcall
        rw [data_modifyMemory]
        exact hcall

/-- A step clears the flag exactly when it completes. -/
theorem step_firstCycle (h : WasmtimeHost) (inputs : ProcessData) (x : Behaviour) :
    (h.step inputs x).2.store.data.firstCycle =
      (h.store.data.firstCycle && !(h.step inputs x).1.isOk) := by
  rw [step]
  split
  · exact (Bool.and_true _).symm
  · split
    · exact (Bool.and_true _).symm
    · exact (Bool.and_true _).symm
    · next stepFn _ _ =>
      have hcall := call_firstCycle (h.modifyMemory fun m =>
        writeSystemInfo (copyInputsToWasm m inputs) h.stepInfo) stepFn x
      rw [data_modifyMemory] at hcall
      dsimp only
      split
      · next _ _ hs =>
        rw [hs] at hcall
        exact hcall.trans (Bool.and_true _).symm
      · exact (Bool.and_false _).symm

theorem fault_firstCycle (h : WasmtimeHost) (x : Behaviour) :
    (h.fault x).2.store.data.firstCycle = h.store.data.firstCycle := by
  rw [fault]
  have hcall := h.callIfPresent_firstCycle h.faultFn x
  split
  · next _ _ hs =>
    rw [hs] at hcall
    exact hcall
  · next h₁ hs =>
    rw [hs] at hcall
    rw [data_modifyMemory]
    exact hcall

theorem migrate_firstCycle (h : WasmtimeHost) (old : Option Memory) (x : Behaviour) :
    (h.migrate old x).2.store.data.firstCycle = h.store.data.firstCycle := by
  cases old with
  | none => exact h.callIfPresent_firstCycle h.initFn x
  | some old => rw [migrate, data_modifyMemory]

/-- A reload clears the flag exactly when it succeeds. -/
theorem reloadModule_firstCycle (h : WasmtimeHost) (candidate : Except String GuestModule)
    (preserve : Bool) (start : Instantiation) (x : Behaviour) :
    (h.reloadModule candidate preserve start x).2.store.data.firstCycle =
      (h.store.data.firstCycle && !(h.reloadModule candidate preserve start x).1.isOk) := by
  rw [reloadModule]
  rcases h.prepareReload_cases candidate ((h.preserved preserve).map Memory.size) start with
    ⟨⟨e, hprepare⟩, -⟩ | ⟨module, r, -, -, -, hprepare, -⟩
  · rw [hprepare]
    exact (Bool.and_true _).symm
  · have hdata := (h.ensureFuel.store.instantiate_data module start).2
    rw [hprepare]
    cases r with
    | error e => exact hdata.trans (Bool.and_true _).symm
    | ok new =>
      have hmigrate := migrate_firstCycle
        ({ h with store := h.instantiated module start }.commitReload new) (h.preserved preserve) x
      dsimp only
      split
      · next _ _ hs =>
        rw [hs] at hmigrate
        exact (hmigrate.trans hdata).trans (Bool.and_true _).symm
      · exact (Bool.and_false _).symm

/-- What one operation does to the flag is seen from its outcome. -/
theorem apply_firstCycle (h : WasmtimeHost) (op : Op) :
    (h.apply op).store.data.firstCycle = (h.store.data.firstCycle && !(h.outcome op).clears) := by
  cases op with
  | load compiled =>
    cases compiled with
    | error e => exact (Bool.and_true _).symm
    | ok module => exact (Bool.and_true _).symm
  | init start x =>
    rw [apply, init_firstCycle, outcome]
    split
    · exact (Bool.and_true _).symm
    · exact (Bool.and_true _).symm
  | step inputs x =>
    rw [apply, step_firstCycle, outcome]
    split
    · next hok => rw [hok]; rfl
    · next herror => rw [Bool.eq_false_of_not_eq_true herror]; rfl
  | fault x => exact (h.fault_firstCycle x).trans (Bool.and_true _).symm
  | reload candidate preserve start x =>
    rw [apply, reloadModule_firstCycle, outcome]
    split
    · next hok => rw [hok]; rfl
    · next herror => rw [Bool.eq_false_of_not_eq_true herror]; rfl
  | tick => exact (Bool.and_true _).symm

/-- After a run the flag is still set if nothing in its history has cleared it. -/
theorem run_firstCycle (h : WasmtimeHost) (ops : List Op) :
    (h.run ops).store.data.firstCycle =
      (h.store.data.firstCycle && !(h.history ops).any Outcome.clears) := by
  induction ops generalizing h with
  | nil => exact (Bool.and_true _).symm
  | cons op rest ih =>
    rw [history, List.any_cons, Bool.not_or, ← Bool.and_assoc, ← apply_firstCycle]
    exact ih (h.apply op)

/-! ## What a step tells -/

/-- The flag that is read from memory as a step starts is the one the host has written, if it fits.
-/
theorem firstCycleFlag_preStepImage (inputs : ProcessData) (info : WasmSystemInfo) (m : Memory) :
    firstCycleFlag (preStepImage inputs info m) =
      (decide (sysinfoOffset + sysinfoSize ≤ m.size) && info.flags &&& flagFirstCycle != 0) := by
  rw [firstCycleFlag, size_preStepImage]
  by_cases hfits : sysinfoOffset + sysinfoSize ≤ m.size
  · have hflags : (preStepImage inputs info m).value (sysinfoOffset + 4) 4 = info.flags.toNat :=
      flags_writeSystemInfo info (by rwa [size_copyInputsToWasm])
    rw [hflags, BitVec.ofNat_toNat, BitVec.setWidth_eq]
  · rw [decide_eq_false hfits, Bool.false_and, Bool.false_and]

/-- The flag of the host, as a step writes it. -/
theorem flags_stepInfo (h : WasmtimeHost) :
    (h.stepInfo.flags &&& flagFirstCycle != 0) = h.store.data.firstCycle := by
  rw [stepInfo]
  cases h.store.data.firstCycle with
  | true =>
    rw [if_pos rfl]
    exact (by decide : (flagFirstCycle &&& flagFirstCycle != 0) = true)
  | false =>
    rw [if_neg Bool.false_ne_true]
    exact (by decide : ((0 : BitVec 32) &&& flagFirstCycle != 0) = false)

/-- A step that calls the program has a memory to write to. -/
theorem Valid.currentMemory_of_calls {func : TypedFunc} (hvalid : h.Valid) (hcalls : h.Calls func) :
    ∃ m, h.currentMemory = some m := by
  obtain ⟨handle, hhandle⟩ := Option.isSome_iff_exists.mp hcalls.memory
  refine ⟨h.store.memories.get ⟨handle, hvalid.memory handle hhandle⟩, ?_⟩
  rw [currentMemory, hhandle]
  exact List.getElem?_eq_getElem _

/-- At any point of a step `is_first_cycle` answers with the flag of the host, within the limit. -/
theorem isFirstCycle_during (h : WasmtimeHost) (inputs : ProcessData) (func : TypedFunc)
    (events : List Event) (exported : Option Nat)
    (hbudget : (h.during inputs func events).data.hostCallCount <
      (h.during inputs func events).data.maxHostCallsPerCycle) :
    ((h.during inputs func events).hostCall exported .isFirstCycle).1 =
      [.i32 (if h.store.data.firstCycle then 1 else 0)] := by
  have heffect : Effect ((h.entered inputs).store.instances[func.owner]?).join
      (h.entered inputs).store (h.during inputs func events) := runEvents_effect events
  have hentered : (h.entered inputs).store.data = h.store.data := data_modifyMemory h _
  have hflag : (h.during inputs func events).data.firstCycle = h.store.data.firstCycle := by
    rw [← hentered]
    exact heffect.firstCycle
  rw [hostCall_let_through _ (BitVec.not_le.mpr hbudget), ← hflag]
  rfl

/-- A step tells the truth about any history that says the same of the flag as the host. -/
theorem tells_iff {func : TypedFunc} {history : List Outcome} (hvalid : h.Valid)
    (hcalls : h.Calls func) (inputs : ProcessData)
    (hflag : h.store.data.firstCycle = !history.any Outcome.clears) :
    h.Tells inputs func (Outcome.isFirst history) ↔
      .stepped ∈ Outcome.sinceInit history ∨ Outcome.Untouched history ∧ h.HasRoom := by
  obtain ⟨m, hm⟩ := hvalid.currentMemory_of_calls hcalls
  have hentered : (h.entered inputs).currentMemory = some (preStepImage inputs h.stepInfo m) :=
    currentMemory_preStep hm inputs
  have hshown : firstCycleFlag (preStepImage inputs h.stepInfo m) =
      (decide (sysinfoOffset + sysinfoSize ≤ m.size) && h.store.data.firstCycle) := by
    rw [firstCycleFlag_preStepImage, flags_stepInfo]
  have huntouched : h.store.data.firstCycle = true ↔ Outcome.Untouched history := by
    rw [hflag, Bool.not_eq_true', Outcome.untouched_iff]
  constructor
  · rintro ⟨⟨m', hm', htold⟩, -⟩
    rw [hentered] at hm'
    rw [← Option.some.inj hm', hshown] at htold
    cases hfirst : Outcome.isFirst history with
    | false => exact .inl ((Outcome.isFirst_eq_false_iff history).mp hfirst)
    | true =>
      rw [hfirst, Bool.and_eq_true, decide_eq_true_iff] at htold
      exact .inr ⟨huntouched.mp htold.2, m, hm, htold.1⟩
  · -- the flag of the host is right, and memory shows it
    intro hcond
    have hright : h.store.data.firstCycle = Outcome.isFirst history ∧
        (h.store.data.firstCycle = true → sysinfoOffset + sysinfoSize ≤ m.size) := by
      rcases hcond with hstepped | ⟨hnothing, m', hm', hroom⟩
      · have hclear : h.store.data.firstCycle = false := by
          refine Bool.eq_false_of_not_eq_true fun htrue => ?_
          have hfirst := (huntouched.mp htrue).isFirst
          rw [(Outcome.isFirst_eq_false_iff history).mpr hstepped] at hfirst
          cases hfirst
        rw [hclear, (Outcome.isFirst_eq_false_iff history).mpr hstepped]
        exact ⟨rfl, fun htrue => absurd htrue Bool.false_ne_true⟩
      · obtain rfl : m = m' := Option.some.inj (hm.symm.trans hm')
        exact ⟨(huntouched.mpr hnothing).trans hnothing.isFirst.symm, fun _ => hroom⟩
    refine ⟨⟨_, hentered, ?_⟩, fun events exported hbudget => ?_⟩
    · rw [hshown, ← hright.1]
      cases hvalue : h.store.data.firstCycle with
      | false => exact Bool.and_false _
      | true => rw [decide_eq_true (hright.2 hvalue), Bool.and_true]
    · rw [isFirstCycle_during h inputs func events exported hbudget, hright.1]

/-- In every run from a new host, whatever is loaded, initialised, stepped and reloaded in whatever
order, all steps tell the program whether it is in its first cycle since the last successful `init`
exactly when each of them either follows a completed one, or is in a host where none has ever
completed and no reload succeeded, with room for the system information. -/
theorem everyStepTells_iff (cycleTimeNs maxEpochsPerCycle fuelPerCycle : BitVec 64) (useFuel : Bool)
    (ops : List Op) :
    let h := WasmtimeHost.new cycleTimeNs maxEpochsPerCycle fuelPerCycle useFuel
    (h.EveryStep ops fun h history inputs func =>
        h.Tells inputs func (Outcome.isFirst history)) ↔
      h.EveryStep ops fun h history _ _ =>
        .stepped ∈ Outcome.sinceInit history ∨ Outcome.Untouched history ∧ h.HasRoom := by
  intro h
  have hstep : ∀ (before : List Op) (inputs : ProcessData) (func : TypedFunc),
      (h.run before).Calls func →
        ((h.run before).Tells inputs func (Outcome.isFirst (h.history before)) ↔
          .stepped ∈ Outcome.sinceInit (h.history before) ∨
            Outcome.Untouched (h.history before) ∧ (h.run before).HasRoom) := by
    intro before inputs func hcalls
    refine tells_iff ((valid_new _ _ _ _).run before) hcalls inputs ?_
    rw [run_firstCycle]
    rfl
  constructor
  · intro hall before inputs x after hops func hcalls
    exact (hstep before inputs func hcalls).mp (hall before inputs x after hops func hcalls)
  · intro hall before inputs x after hops func hcalls
    exact (hstep before inputs func hcalls).mpr (hall before inputs x after hops func hcalls)

/-- A program that is loaded and initialised after another one has made a step is not told of its
own first cycle. -/
theorem secondProgram_untold :
    ¬ (WasmtimeHost.new 1000000 100 0 false).EveryStep
        [.load (.ok .plain), .init .plain (.returning []), .step .zero (.returning []),
          .load (.ok .plain), .init .plain (.returning []), .step .zero (.returning [])]
        fun h history inputs func => h.Tells inputs func (Outcome.isFirst history) := by
  intro hall
  let before : List Op := [.load (.ok .plain), .init .plain (.returning []),
    .step .zero (.returning []), .load (.ok .plain), .init .plain (.returning [])]
  have hcalls : ((WasmtimeHost.new 1000000 100 0 false).run before).Calls ⟨1, .step⟩ :=
    ⟨rfl, rfl, rfl⟩
  have hhistory : (WasmtimeHost.new 1000000 100 0 false).history before =
      [.other, .initialized, .stepped, .other, .initialized] := rfl
  have htells := hall before .zero (.returning []) [] rfl ⟨1, .step⟩ hcalls
  rw [hhistory] at htells
  have hcond := (tells_iff ((valid_new _ _ _ _).run before) hcalls .zero rfl).mp htells
  rcases hcond with hstepped | ⟨⟨hnever, -⟩, -⟩
  · exact absurd hstepped (by decide)
  · exact absurd (by decide) hnever

end WasmtimeHost

end VirtualPlc.Host

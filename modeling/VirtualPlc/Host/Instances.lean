import VirtualPlc.Host.Runs

/-!
# Instances and memories

Instantiation only adds to the instances and memories of a store, so the handles that the host keeps
stay valid in every run (`Valid.run`), and a reload before its commit changes the store alone
(`prepareReload_cases`).
-/

set_option autoImplicit false

namespace VirtualPlc.Host

open VirtualPlc.Runtime VirtualPlc.Word

/-! ## Instantiation -/

namespace Store

variable {s : Store} {module : GuestModule} {x : Instantiation}

/-- The memory that the instance of a module will export. -/
def newMemory (s : Store) (module : GuestModule) : Option Nat :=
  module.memory.get.toOption.map fun _ => s.memories.length

@[simp] theorem instances_allocate (s : Store) (module : GuestModule) :
    (s.allocate module).instances = s.instances ++ [s.newMemory module] := by
  rw [allocate, newMemory]
  cases module.memory.get with
  | ok m => rfl
  | error e => rfl

theorem length_memories_allocate (s : Store) (module : GuestModule) :
    s.memories.length ≤ (s.allocate module).memories.length := by
  rw [allocate]
  split
  · simp
  · exact Nat.le_refl _

theorem newMemory_eq_some {handle : Nat} (h : s.newMemory module = some handle) :
    ∃ m, module.memory.get = .ok m ∧ handle = s.memories.length := by
  rw [newMemory] at h
  cases hget : module.memory.get with
  | error e =>
    rw [hget] at h
    cases h
  | ok m =>
    rw [hget] at h
    cases h
    exact ⟨m, rfl, rfl⟩

/-- The new memory holds the initial data of the module. -/
theorem getElem?_memories_allocate_new {m : Memory} (h : module.memory.get = .ok m) :
    (s.allocate module).memories[s.memories.length]? = some m := by
  rw [allocate, h]
  exact List.getElem?_concat_length

/-- Allocation leaves the memories there are alone. -/
theorem getElem?_memories_allocate (s : Store) (module : GuestModule) {handle : Nat}
    (h : handle < s.memories.length) :
    (s.allocate module).memories[handle]? = s.memories[handle]? := by
  rw [allocate]
  split
  · exact List.getElem?_append_left h
  · rfl

@[simp] theorem data_allocate (s : Store) (module : GuestModule) :
    (s.allocate module).data = s.data := by
  rw [allocate]
  split
  · rfl
  · rfl

theorem exported_allocate (s : Store) (module : GuestModule) :
    ((s.allocate module).instances[s.instances.length]?).join = s.newMemory module := by
  rw [instances_allocate, List.getElem?_append_right (Nat.le_refl _), Nat.sub_self]
  rfl

theorem instantiate_of_link_error {message : String} (h : x.link = .error message) :
    s.instantiate module x = (.error ⟨.other, message⟩, s) := by
  rw [instantiate, h]

/-- A successful instantiation is linked and makes the next instance. -/
theorem instantiate_ok {owner : Nat} (h : (s.instantiate module x).1 = .ok owner) :
    x.link = .ok () ∧ owner = s.instances.length := by
  rw [instantiate] at h
  split at h
  · cases h
  · next hlink =>
    refine ⟨hlink, ?_⟩
    dsimp only at h
    split at h
    · cases h
      rfl
    · next behaviour _ =>
      rcases hrun : (s.allocate module).execute .start s.instances.length behaviour with ⟨r, s'⟩
      rw [hrun] at h
      cases r with
      | ok u =>
        cases h
        rfl
      | error e => cases h

/-- Beyond the allocation an instantiation does what start code can do. -/
theorem instantiate_effect (h : x.link = .ok ()) :
    Effect (s.newMemory module) (s.allocate module) (s.instantiate module x).2 := by
  rw [instantiate, h]
  dsimp only
  split
  · exact .refl _
  · next behaviour _ =>
    rw [← exported_allocate]
    exact execute_effect .start s.instances.length behaviour

/-- Instances and memories are only added. -/
structure Extends (s s' : Store) : Prop where
  instances : s.instances <+: s'.instances
  memories : s.memories.length ≤ s'.memories.length

namespace Extends

variable {s' s'' : Store}

theorem refl (s : Store) : Extends s s := ⟨List.prefix_refl _, Nat.le_refl _⟩

theorem trans (h : Extends s s') (h' : Extends s' s'') : Extends s s'' :=
  ⟨h.instances.trans h'.instances, Nat.le_trans h.memories h'.memories⟩

theorem of_effect {exported : Option Nat} (h : Effect exported s s') : Extends s s' :=
  ⟨h.instances ▸ List.prefix_refl _, Nat.le_of_eq h.length.symm⟩

theorem getElem?_instances (h : Extends s s') {i : Nat} (hi : i < s.instances.length) :
    s'.instances[i]? = s.instances[i]? := by
  obtain ⟨rest, hrest⟩ := h.instances
  rw [← hrest, List.getElem?_append_left hi]

end Extends

theorem allocate_extends (s : Store) (module : GuestModule) : Extends s (s.allocate module) :=
  ⟨by rw [instances_allocate]; exact List.prefix_append _ _, length_memories_allocate s module⟩

theorem instantiate_extends (s : Store) (module : GuestModule) (x : Instantiation) :
    Extends s (s.instantiate module x).2 := by
  cases hlink : x.link with
  | error message =>
    rw [instantiate_of_link_error hlink]
    exact .refl s
  | ok u => exact (allocate_extends s module).trans (.of_effect (instantiate_effect hlink))

/-- What an instantiation leaves of the host state. -/
theorem instantiate_data (s : Store) (module : GuestModule) (x : Instantiation) :
    (s.instantiate module x).2.data.cycleCount = s.data.cycleCount ∧
      (s.instantiate module x).2.data.firstCycle = s.data.firstCycle := by
  cases hlink : x.link with
  | error message =>
    rw [instantiate_of_link_error hlink]
    exact ⟨rfl, rfl⟩
  | ok u =>
    have heffect : Effect (s.newMemory module) (s.allocate module) (s.instantiate module x).2 :=
      instantiate_effect hlink
    rw [heffect.cycleCount, heffect.firstCycle, data_allocate]
    exact ⟨rfl, rfl⟩

/-- Start code that has a memory of its own leaves all older memories alone. -/
theorem getElem?_memories_instantiate {m : Memory} (hm : module.memory.get = .ok m) {handle : Nat}
    (h : handle < s.memories.length) :
    (s.instantiate module x).2.memories[handle]? = s.memories[handle]? := by
  cases hlink : x.link with
  | error message => rw [instantiate_of_link_error hlink]
  | ok u =>
    have heffect : Effect (s.newMemory module) (s.allocate module) (s.instantiate module x).2 :=
      instantiate_effect hlink
    have hnew : s.newMemory module = some s.memories.length := by
      rw [newMemory, hm]
      rfl
    have hother : (s.allocate module).getMemory (s.newMemory module) ≠ some handle := by
      rw [hnew]
      intro heq
      exact absurd (Option.some.inj heq) (Nat.ne_of_gt h)
    rw [heffect.others handle hother, getElem?_memories_allocate s module h]

/-- The instance that a successful instantiation makes. -/
theorem getElem?_instances_instantiate {owner : Nat} (h : (s.instantiate module x).1 = .ok owner) :
    ((s.instantiate module x).2.instances[owner]?).join = s.newMemory module := by
  obtain ⟨hlink, rfl⟩ := instantiate_ok h
  have heffect : Effect (s.newMemory module) (s.allocate module) (s.instantiate module x).2 :=
    instantiate_effect hlink
  rw [heffect.instances, exported_allocate]

end Store

/-! ## Handles of the host -/

namespace WasmtimeHost

open Store

variable {h h' : WasmtimeHost}

/-- The handles of the host are those of instances and memories in its store. -/
structure Valid (h : WasmtimeHost) : Prop where
  instanceHandle : ∀ i, h.instanceHandle = some i → i < h.store.instances.length
  memory : ∀ i, h.memory = some i → i < h.store.memories.length
  stepFn : ∀ func, h.stepFn = some func → func.owner < h.store.instances.length

/-- Same handles, and a store to which instances and memories may have been added. -/
structure Keeps (h h' : WasmtimeHost) : Prop where
  instanceHandle : h'.instanceHandle = h.instanceHandle
  memory : h'.memory = h.memory
  stepFn : h'.stepFn = h.stepFn
  store : Extends h.store h'.store

theorem Keeps.refl (h : WasmtimeHost) : Keeps h h := ⟨rfl, rfl, rfl, .refl _⟩

theorem Keeps.trans {h'' : WasmtimeHost} (first : Keeps h h') (second : Keeps h' h'') :
    Keeps h h'' :=
  ⟨second.instanceHandle.trans first.instanceHandle, second.memory.trans first.memory,
    second.stepFn.trans first.stepFn, first.store.trans second.store⟩

theorem Valid.keeps (hvalid : h.Valid) (hkeeps : Keeps h h') : h'.Valid where
  instanceHandle := fun i hi =>
    Nat.lt_of_lt_of_le (hvalid.instanceHandle i (hkeeps.instanceHandle ▸ hi))
      hkeeps.store.instances.length_le
  memory := fun i hi =>
    Nat.lt_of_lt_of_le (hvalid.memory i (hkeeps.memory ▸ hi)) hkeeps.store.memories
  stepFn := fun func hfunc =>
    Nat.lt_of_lt_of_le (hvalid.stepFn func (hkeeps.stepFn ▸ hfunc))
      hkeeps.store.instances.length_le

theorem modifyMemory_keeps (h : WasmtimeHost) (f : Memory → Memory) :
    Keeps h (h.modifyMemory f) := by
  rw [modifyMemory]
  split
  · next handle _ =>
    exact ⟨rfl, rfl, rfl, List.prefix_refl _,
      Nat.le_of_eq (List.length_modify f h.store.memories handle).symm⟩
  · exact .refl h

theorem call_keeps (h : WasmtimeHost) (func : TypedFunc) (x : Behaviour) :
    Keeps h (h.call func x).2 := by
  have heffect := h.setEpochDeadline.ensureFuel.store.execute_effect (.exported func.function)
    func.owner x
  have hset : Extends h.store h.setEpochDeadline.ensureFuel.store :=
    ⟨List.prefix_refl _, Nat.le_refl _⟩
  exact ⟨rfl, rfl, rfl, hset.trans (.of_effect heffect)⟩

theorem callIfPresent_keeps (h : WasmtimeHost) (func : Option TypedFunc) (x : Behaviour) :
    Keeps h (h.callIfPresent func x).2 := by
  cases func with
  | none => exact .refl h
  | some func => exact h.call_keeps func x

theorem step_keeps (h : WasmtimeHost) (inputs : ProcessData) (x : Behaviour) :
    Keeps h (h.step inputs x).2 := by
  rw [step]
  split
  · exact .refl h
  · split
    · exact .refl h
    · exact .refl h
    · next stepFn _ _ =>
      have hcall := (h.modifyMemory_keeps
        fun m => writeSystemInfo (copyInputsToWasm m inputs) h.stepInfo).trans
          (call_keeps _ stepFn x)
      dsimp only
      split
      · next _ _ hs =>
        rw [hs] at hcall
        exact hcall
      · next h₂ hs =>
        rw [hs] at hcall
        exact hcall.trans ⟨rfl, rfl, rfl, List.prefix_refl _, Nat.le_refl _⟩

theorem fault_keeps (h : WasmtimeHost) (x : Behaviour) : Keeps h (h.fault x).2 := by
  rw [fault]
  have hcall := h.callIfPresent_keeps h.faultFn x
  split
  · next _ _ hs =>
    rw [hs] at hcall
    exact hcall
  · next h₁ hs =>
    rw [hs] at hcall
    exact hcall.trans (h₁.modifyMemory_keeps _)

theorem migrate_keeps (h : WasmtimeHost) (old : Option Memory) (x : Behaviour) :
    Keeps h (h.migrate old x).2 := by
  cases old with
  | none => exact h.callIfPresent_keeps h.initFn x
  | some old => exact h.modifyMemory_keeps (restoreBytes old)

/-- The store after the instantiation of a candidate. -/
def instantiated (h : WasmtimeHost) (module : GuestModule) (start : Instantiation) : Store :=
  (h.ensureFuel.store.instantiate module start).2

theorem instantiated_extends (h : WasmtimeHost) (module : GuestModule) (start : Instantiation) :
    Extends h.store (h.instantiated module start) := by
  have hfuel : Extends h.store h.ensureFuel.store := ⟨List.prefix_refl _, Nat.le_refl _⟩
  exact hfuel.trans (instantiate_extends _ module start)

section Instantiated

variable {module : GuestModule} {start : Instantiation} {owner : Nat}

theorem owner_lt_of_instantiate
    (hok : (h.ensureFuel.store.instantiate module start).1 = .ok owner) :
    owner < (h.instantiated module start).instances.length := by
  obtain ⟨hlink, rfl⟩ := instantiate_ok hok
  have heffect : Effect _ (h.ensureFuel.store.allocate module) (h.instantiated module start) :=
    instantiate_effect hlink
  rw [heffect.instances, instances_allocate, List.length_append]
  exact Nat.lt_succ_self _

/-- The memory that a new instance exports is in the store, and it is the newest one. -/
theorem memory_of_instantiate (hok : (h.ensureFuel.store.instantiate module start).1 = .ok owner)
    {memory : Nat}
    (hmemory : ((h.instantiated module start).instances[owner]?).join = some memory) :
    h.store.newMemory module = some memory ∧
      ∃ m, (h.instantiated module start).memories[memory]? = some m := by
  obtain ⟨hlink, -⟩ := instantiate_ok hok
  have heffect : Effect _ (h.ensureFuel.store.allocate module) (h.instantiated module start) :=
    instantiate_effect hlink
  have hexport : ((h.instantiated module start).instances[owner]?).join =
      h.ensureFuel.store.newMemory module := getElem?_instances_instantiate hok
  have hnew : h.ensureFuel.store.newMemory module = some memory := hexport.symm.trans hmemory
  obtain ⟨m, hget, rfl⟩ := newMemory_eq_some hnew
  obtain ⟨m', hm', -⟩ := heffect.grows _ m (getElem?_memories_allocate_new hget)
  exact ⟨hnew, m', hm'⟩

end Instantiated

/-- What a commit takes over: the next instance with the memory it exports, which is large enough.
-/
structure Prepares (h : WasmtimeHost) (module : GuestModule) (oldLen : Option Nat)
    (start : Instantiation) (new : Prepared) : Prop where
  owner : new.owner = h.store.instances.length
  stepFn : new.stepFn.owner = new.owner
  instances : h.store.instances.length < (h.instantiated module start).instances.length
  memory : h.store.newMemory module = some new.memory
  fresh : ∃ m, (h.instantiated module start).memories[new.memory]? = some m ∧
    ∀ len, oldLen = some len → len ≤ m.size

theorem getTypedFunc_owner {owner : Nat} {function : Function} {e : Export Unit}
    {func : TypedFunc} (h : getTypedFunc owner function e = .ok func) : func.owner = owner := by
  rw [getTypedFunc] at h
  cases hget : e.get with
  | error message =>
    rw [hget] at h
    cases h
  | ok u =>
    rw [hget] at h
    cases h
    rfl

theorem checkInstance_ok {s : Store} {module : GuestModule} {oldLen : Option Nat} {owner : Nat}
    {new : Prepared} (hok : checkInstance s module oldLen owner = .ok new) :
    new.owner = owner ∧ new.stepFn.owner = owner ∧
      (s.instances[owner]?).join = some new.memory ∧
      ∀ len, oldLen = some len →
        len ≤ ((s.memoryAt (some new.memory)).map Memory.size).getD 0 := by
  rw [checkInstance] at hok
  split at hok
  · cases hok
  · next memory hmemory =>
    split at hok
    · cases hok
    · next stepFn hstep =>
      have howner := getTypedFunc_owner hstep
      dsimp only at hok
      split at hok
      · cases hok
        exact ⟨rfl, howner, hmemory, fun len hlen => nomatch hlen⟩
      · next oldLen =>
        split at hok
        · cases hok
        · next hlarge =>
          cases hok
          refine ⟨rfl, howner, hmemory, fun len hlen => ?_⟩
          cases hlen
          exact Nat.le_of_not_lt hlarge

/-- A new instance that passes the checks is fit to be committed. -/
theorem prepares_of_checkInstance {module : GuestModule} {oldLen : Option Nat}
    {start : Instantiation} {owner : Nat} {new : Prepared}
    (hinstantiate : (h.ensureFuel.store.instantiate module start).1 = .ok owner)
    (hok : checkInstance (h.instantiated module start) module oldLen owner = .ok new) :
    h.Prepares module oldLen start new := by
  obtain ⟨howner, hstepFn, hmemory, hsize⟩ := checkInstance_ok hok
  obtain ⟨-, hnext⟩ := instantiate_ok hinstantiate
  obtain ⟨hnew, m, hm⟩ := memory_of_instantiate hinstantiate hmemory
  refine ⟨howner.trans hnext, hstepFn.trans howner.symm, ?_, hnew, m, hm, fun len hlen => ?_⟩
  · have hlt := owner_lt_of_instantiate hinstantiate
    rwa [hnext] at hlt
  · have hle := hsize len hlen
    rw [memoryAt, Option.bind_some, hm] at hle
    exact hle

/-- What the part of a reload before the commit can do: refuse the candidate itself and change
nothing, or instantiate it and change the store alone. -/
theorem prepareReload_cases (h : WasmtimeHost) (candidate : Except String GuestModule)
    (oldLen : Option Nat) (start : Instantiation) :
    ((∃ e, h.prepareReload candidate oldLen start = (.error e, h)) ∧
        ¬ ∃ module, candidate = .ok module ∧ module.step.named = true ∧
          module.memory.named = true) ∨
      ∃ module r, candidate = .ok module ∧ module.step.named = true ∧ module.memory.named = true ∧
        h.prepareReload candidate oldLen start =
          (r, { h with store := h.instantiated module start }) ∧
        ∀ new, r = .ok new → h.Prepares module oldLen start new := by
  rw [prepareReload.eq_def]
  split
  · refine .inl ⟨⟨_, rfl⟩, ?_⟩
    rintro ⟨module, hmodule, -⟩
    cases hmodule
  · next module =>
    cases hstep : module.step.named with
    | false =>
      refine .inl ⟨⟨_, rfl⟩, ?_⟩
      rintro ⟨_, hmodule, hnamed, -⟩
      cases hmodule
      rw [hstep] at hnamed
      cases hnamed
    | true =>
      -- without an export of either name the module is refused as it is
      cases hmemory : module.memory.named with
      | false =>
        refine .inl ⟨⟨_, rfl⟩, ?_⟩
        rintro ⟨_, hmodule, -, hnamed⟩
        cases hmodule
        rw [hmemory] at hnamed
        cases hnamed
      | true =>
        -- from here on the store has an instance more, whatever becomes of it
        rcases hinst : h.ensureFuel.store.instantiate module start with ⟨result, s⟩
        have hs : h.instantiated module start = s := by rw [instantiated, hinst]
        cases result with
        | error e =>
          refine .inr ⟨module, .error (.config s!"Failed to instantiate new module: {e.message}"),
            rfl, hstep, hmemory, ?_, fun new hnew => ?_⟩
          · rw [hs]
            dsimp only
            rw [hinst]
            rfl
          · cases hnew
        | ok owner =>
          refine .inr ⟨module, checkInstance s module oldLen owner, rfl, hstep, hmemory, ?_,
            fun new hnew => ?_⟩
          · rw [hs]
            dsimp only
            rw [hinst]
            rfl
          · rw [← hs] at hnew
            exact prepares_of_checkInstance (by rw [hinst]) hnew

/-! ## Runs -/

theorem valid_new (cycleTimeNs maxEpochsPerCycle fuelPerCycle : BitVec 64) (useFuel : Bool) :
    (WasmtimeHost.new cycleTimeNs maxEpochsPerCycle fuelPerCycle useFuel).Valid :=
  ⟨nofun, nofun, nofun⟩

theorem Valid.loadModule (hvalid : h.Valid) (compiled : Except String GuestModule) :
    (h.loadModule compiled).2.Valid := by
  cases compiled with
  | error e => exact hvalid
  | ok module => exact ⟨nofun, nofun, nofun⟩

theorem Valid.instantiate (hvalid : h.Valid) (x : Instantiation) : (h.instantiate x).2.Valid := by
  rw [WasmtimeHost.instantiate]
  split
  · exact hvalid
  · next module _ =>
    have hstore : Keeps h { h with store := h.instantiated module x } :=
      ⟨rfl, rfl, rfl, h.instantiated_extends module x⟩
    rcases hinst : h.ensureFuel.store.instantiate module x with ⟨result, s⟩
    have hs : h.instantiated module x = s := by rw [instantiated, hinst]
    have hkept := hvalid.keeps hstore
    rw [hs] at hkept
    dsimp only
    rw [hinst]
    cases result with
    | error e => exact hkept
    | ok owner =>
      have hok : (h.ensureFuel.store.instantiate module x).1 = .ok owner := by rw [hinst]
      have howner := owner_lt_of_instantiate hok
      dsimp only
      cases hmemory : (s.instances[owner]?).join with
      | none => exact hkept
      | some memory =>
        obtain ⟨-, m, hm⟩ := memory_of_instantiate hok (by rw [hs]; exact hmemory)
        rw [hs] at howner hm
        dsimp only
        -- without a step function the host keeps its old handles
        cases hstep : getTypedFunc owner .step module.step with
        | error e => exact ⟨hkept.instanceHandle, hkept.memory, hkept.stepFn⟩
        | ok stepFn =>
          refine ⟨fun i hi => ?_, fun i hi => ?_, fun func hfunc => ?_⟩
          · cases hi
            exact howner
          · cases hi
            exact (List.getElem?_eq_some_iff.1 hm).1
          · cases hfunc
            rw [getTypedFunc_owner hstep]
            exact howner

theorem Valid.init (hvalid : h.Valid) (start : Instantiation) (x : Behaviour) :
    (h.init start x).2.Valid := by
  rw [WasmtimeHost.init]
  split
  · exact hvalid
  · have hinstance : (h.ensureInstance start).2.Valid := by
      rw [ensureInstance]
      split
      · exact hvalid
      · exact hvalid.instantiate start
    split
    · next _ _ hs =>
      rw [hs] at hinstance
      exact hinstance
    · next h₁ hs =>
      rw [hs] at hinstance
      have hcall := hinstance.keeps (h₁.callIfPresent_keeps h₁.initFn x)
      split
      · next _ _ hs =>
        rw [hs] at hcall
        exact hcall
      · next h₂ hs =>
        rw [hs] at hcall
        exact (hcall.keeps (h₂.modifyMemory_keeps _)).keeps ⟨rfl, rfl, rfl, .refl _⟩

/-- The commit takes over valid handles. -/
theorem valid_commitReload {module : GuestModule} {oldLen : Option Nat} {start : Instantiation}
    {new : Prepared} (hnew : h.Prepares module oldLen start new) :
    ({ h with store := h.instantiated module start }.commitReload new).Valid := by
  obtain ⟨fresh, hfresh, -⟩ := hnew.fresh
  refine ⟨fun i hi => ?_, fun i hi => ?_, fun func hfunc => ?_⟩
  · cases hi
    rw [hnew.owner]
    exact hnew.instances
  · cases hi
    exact (List.getElem?_eq_some_iff.1 hfresh).1
  · cases hfunc
    rw [hnew.stepFn, hnew.owner]
    exact hnew.instances

theorem Valid.reloadModule (hvalid : h.Valid) (candidate : Except String GuestModule)
    (preserve : Bool) (start : Instantiation) (x : Behaviour) :
    (h.reloadModule candidate preserve start x).2.Valid := by
  rw [WasmtimeHost.reloadModule]
  rcases h.prepareReload_cases candidate ((h.preserved preserve).map Memory.size) start with
    ⟨⟨e, hprepare⟩, -⟩ | ⟨module, r, -, -, -, hprepare, hnew⟩
  · rw [hprepare]
    exact hvalid
  · rw [hprepare]
    cases r with
    | error e => exact hvalid.keeps ⟨rfl, rfl, rfl, h.instantiated_extends module start⟩
    | ok new =>
      have hmigrate := (valid_commitReload (hnew new rfl)).keeps
        (migrate_keeps _ (h.preserved preserve) x)
      dsimp only
      split
      · next _ _ hs =>
        rw [hs] at hmigrate
        exact hmigrate
      · next h₂ hs =>
        rw [hs] at hmigrate
        exact hmigrate.keeps ⟨rfl, rfl, rfl, List.prefix_refl _, Nat.le_refl _⟩

theorem Valid.apply (hvalid : h.Valid) (op : Op) : (h.apply op).Valid := by
  cases op with
  | load compiled => exact hvalid.loadModule compiled
  | init start x => exact hvalid.init start x
  | step inputs x => exact hvalid.keeps (h.step_keeps inputs x)
  | fault x => exact hvalid.keeps (h.fault_keeps x)
  | reload candidate preserve start x => exact hvalid.reloadModule candidate preserve start x
  | tick => exact hvalid.keeps ⟨rfl, rfl, rfl, List.prefix_refl _, Nat.le_refl _⟩

/-- In every run the handles of the host stay valid. -/
theorem Valid.run (hvalid : h.Valid) (ops : List Op) : (h.run ops).Valid := by
  induction ops generalizing h with
  | nil => exact hvalid
  | cons op rest ih => exact ih (hvalid.apply op)

end WasmtimeHost

end VirtualPlc.Host

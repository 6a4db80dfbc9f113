import VirtualPlc.Host.Imports

/-!
# What guest code can change

`Effect` says what an execution leaves alone: everything but the clock, the host-call count, the log
buffer and one memory, which never shrinks. `runEvents_effect` shows it of any code.
-/

set_option autoImplicit false

namespace VirtualPlc.Host.Store

open VirtualPlc.Word

variable {s s' s'' : Store} {exported : Option Nat}

/-! ## Frame -/

/-- What guest code whose instance exports `exported` can do to a store. -/
structure Effect (exported : Option Nat) (s s' : Store) : Prop where
  instances : s'.instances = s.instances
  deadline : s'.deadline = s.deadline
  memory : s'.data.memory = s.data.memory
  cycleCount : s'.data.cycleCount = s.data.cycleCount
  firstCycle : s'.data.firstCycle = s.data.firstCycle
  maxHostCalls : s'.data.maxHostCallsPerCycle = s.data.maxHostCallsPerCycle
  epoch : s.clock.epoch ≤ s'.clock.epoch
  length : s'.memories.length = s.memories.length
  others : ∀ handle, s.getMemory exported ≠ some handle →
    s'.memories[handle]? = s.memories[handle]?
  grows : ∀ (handle : Nat) (m : Memory), s.memories[handle]? = some m →
    ∃ m', s'.memories[handle]? = some m' ∧ m.size ≤ m'.size

namespace Effect

theorem refl (s : Store) : Effect exported s s where
  instances := rfl
  deadline := rfl
  memory := rfl
  cycleCount := rfl
  firstCycle := rfl
  maxHostCalls := rfl
  epoch := Nat.le_refl _
  length := rfl
  others := fun _ _ => rfl
  grows := fun _ m h => ⟨m, h, Nat.le_refl _⟩

/-- The memory that host functions work on stays the same. -/
theorem getMemory (h : Effect exported s s') : s'.getMemory exported = s.getMemory exported := by
  cases exported with
  | none => exact h.memory
  | some handle => rfl

theorem trans (h : Effect exported s s') (h' : Effect exported s' s'') :
    Effect exported s s'' where
  instances := h'.instances.trans h.instances
  deadline := h'.deadline.trans h.deadline
  memory := h'.memory.trans h.memory
  cycleCount := h'.cycleCount.trans h.cycleCount
  firstCycle := h'.firstCycle.trans h.firstCycle
  maxHostCalls := h'.maxHostCalls.trans h.maxHostCalls
  epoch := Nat.le_trans h.epoch h'.epoch
  length := h'.length.trans h.length
  others := fun handle hne =>
    (h'.others handle (by rwa [h.getMemory])).trans (h.others handle hne)
  grows := fun handle m hm => by
    obtain ⟨m', hm', hle⟩ := h.grows handle m hm
    obtain ⟨m'', hm'', hle'⟩ := h'.grows handle m' hm'
    exact ⟨m'', hm'', Nat.le_trans hle hle'⟩

/-- Changing the counters and the log buffer of the host state. -/
theorem of_data {data : HostState} (hmemory : data.memory = s.data.memory)
    (hcycleCount : data.cycleCount = s.data.cycleCount)
    (hfirstCycle : data.firstCycle = s.data.firstCycle)
    (hmax : data.maxHostCallsPerCycle = s.data.maxHostCallsPerCycle) :
    Effect exported s { s with data := data } :=
  { (Effect.refl s : Effect exported s s) with
    memory := hmemory
    cycleCount := hcycleCount
    firstCycle := hfirstCycle
    maxHostCalls := hmax }

/-- Changing the memory that host functions work on. -/
theorem of_modifyMemory {handle : Nat} {f : Memory → Memory}
    (htarget : s.getMemory exported = some handle) (hf : ∀ m, m.size ≤ (f m).size) :
    Effect exported s (s.modifyMemory handle f) :=
  { (Effect.refl s : Effect exported s s) with
    length := List.length_modify f s.memories handle
    others := fun other hne => by
      have hother : handle ≠ other := fun h => hne (h ▸ htarget)
      exact List.getElem?_modify_ne f s.memories hother
    grows := fun other m hm => by
      by_cases h : handle = other
      · subst h
        refine ⟨f m, ?_, hf m⟩
        show (s.memories.modify handle f)[handle]? = some (f m)
        rw [List.getElem?_modify_eq, hm]
        rfl
      · refine ⟨m, ?_, Nat.le_refl _⟩
        show (s.memories.modify handle f)[other]? = some m
        rw [List.getElem?_modify_ne f s.memories h, hm] }

end Effect

/-- What a host call that is let through can do: nothing, change the memory it works on, or add a
log message. -/
theorem allowedCall_cases (s : Store) (exported : Option Nat) (call : HostCall) :
    (s.allowedCall exported call).2 = s ∨
      (∃ (handle : Nat) (f : Memory → Memory), s.getMemory exported = some handle ∧
        (∀ m, m.size ≤ (f m).size) ∧ (s.allowedCall exported call).2 = s.modifyMemory handle f) ∨
      ∃ message, (s.allowedCall exported call).2 = { s with data := s.data.pushLog message } := by
  cases call with
  | readDi bit =>
    rw [allowedCall]
    split <;> exact .inl rfl
  | readAi channel =>
    rw [allowedCall]
    split <;> exact .inl rfl
  | getCycleTime => exact .inl rfl
  | getCycleCount => exact .inl rfl
  | isFirstCycle => exact .inl rfl
  | writeDo bit value =>
    rw [allowedCall]
    split
    · next handle htarget =>
      exact .inr (.inl ⟨handle, _, htarget,
        fun m => Nat.le_of_eq (size_writeDoToMemory bit _).symm, rfl⟩)
    · exact .inl rfl
  | writeAo channel value =>
    rw [allowedCall]
    split
    · next handle htarget =>
      exact .inr (.inl ⟨handle, _, htarget,
        fun m => Nat.le_of_eq (size_writeAoToMemory channel _).symm, rfl⟩)
    · exact .inl rfl
  | logMessage ptr len =>
    -- negative arguments, no memory, bytes past its end and invalid text all do nothing
    rw [allowedCall]
    split
    · exact .inl rfl
    · split
      · split
        · split
          · exact .inr (.inr ⟨_, rfl⟩)
          · exact .inl rfl
        · exact .inl rfl
      · exact .inl rfl

theorem allowedCall_effect (call : HostCall) :
    Effect exported s (s.allowedCall exported call).2 := by
  rcases allowedCall_cases s exported call with h | ⟨handle, f, ht, hf, h⟩ |
    ⟨message, h⟩
  · rw [h]
    exact .refl s
  · rw [h]
    exact .of_modifyMemory ht hf
  · rw [h]
    exact .of_data rfl rfl rfl rfl

/-- The store in which one more host call is counted. -/
def counted (s : Store) : Store :=
  { s with data := { s.data with hostCallCount := s.data.hostCallCount + 1 } }

/-- A host call over the limit does nothing but set the flag. -/
theorem hostCall_refused (call : HostCall)
    (h : s.data.maxHostCallsPerCycle ≤ s.data.hostCallCount) :
    s.hostCall exported call =
      (call.zero, { s with data := { s.data with rateLimitHit := true } }) := by
  rw [hostCall, HostState.checkRateLimit, if_pos h]

/-- A host call under the limit counts and takes effect. -/
theorem hostCall_let_through (call : HostCall)
    (h : ¬ s.data.maxHostCallsPerCycle ≤ s.data.hostCallCount) :
    s.hostCall exported call = s.counted.allowedCall exported call := by
  rw [hostCall, HostState.checkRateLimit, if_neg h]
  rfl

theorem hostCall_effect (call : HostCall) : Effect exported s (s.hostCall exported call).2 := by
  by_cases h : s.data.maxHostCallsPerCycle ≤ s.data.hostCallCount
  · rw [hostCall_refused call h]
    exact .of_data rfl rfl rfl rfl
  · rw [hostCall_let_through call h]
    have hcounted : Effect exported s s.counted := .of_data rfl rfl rfl rfl
    exact hcounted.trans (allowedCall_effect call)

/-- What one event can do. -/
theorem event_effect (e : Event) : Effect exported s (s.event exported e) := by
  cases e with
  | store offset value =>
    cases exported with
    | none => exact .refl s
    | some handle =>
      exact .of_modifyMemory rfl fun m => Nat.le_of_eq (size_storeIfFits offset 1 _).symm
  | grow size =>
    cases exported with
    | none => exact .refl s
    | some handle =>
      refine .of_modifyMemory rfl fun m => ?_
      split
      · next hle => exact hle
      · exact Nat.le_refl _
  | host call => exact hostCall_effect call
  | tick => exact { (Effect.refl s : Effect exported s s) with epoch := Nat.le_succ _ }

/-- Interrupted or not, the events after the first run from the store that it leaves. -/
theorem runEvents_cons (s : Store) (exported : Option Nat) (e : Event) (rest : List Event) :
    s.runEvents exported (e :: rest) = (true, [], s) ∨
      s.runEvents exported (e :: rest) =
        (((s.event exported e).runEvents exported rest).1,
          s.allowed e ++ ((s.event exported e).runEvents exported rest).2.1,
          ((s.event exported e).runEvents exported rest).2.2) := by
  cases e with
  | tick => exact .inr rfl
  | store offset value =>
    rw [runEvents]
    split
    · exact .inl rfl
    · exact .inr rfl
    · simp
  | grow size =>
    rw [runEvents]
    split
    · exact .inl rfl
    · exact .inr rfl
    · simp
  | host call =>
    rw [runEvents]
    split
    · exact .inl rfl
    · exact .inr rfl
    · simp

/-- What the events of an execution can do. -/
theorem runEvents_effect (events : List Event) :
    Effect exported s (s.runEvents exported events).2.2 := by
  induction events generalizing s with
  | nil => exact .refl s
  | cons e rest ih =>
    rcases runEvents_cons s exported e rest with h | h
    · rw [h]
      exact .refl s
    · rw [h]
      exact (event_effect e).trans ih

/-- What an execution can do; it is added to the log. -/
theorem execute_effect (code : Code) (owner : Nat) (x : Behaviour) :
    Effect (s.instances[owner]?).join s (s.execute code owner x).2 :=
  { runEvents_effect x.events with }

/-! ## Log -/

theorem log_hostCall (call : HostCall) : (s.hostCall exported call).2.log = s.log := by
  by_cases h : s.data.maxHostCallsPerCycle ≤ s.data.hostCallCount
  · rw [hostCall_refused call h]
  · rw [hostCall_let_through call h]
    rcases allowedCall_cases s.counted exported call with
      h | ⟨handle, f, -, -, h⟩ | ⟨message, h⟩
    all_goals
      rw [h]
      rfl

@[simp] theorem log_event (e : Event) : (s.event exported e).log = s.log := by
  cases e with
  | store offset value => cases exported <;> rfl
  | grow size => cases exported <;> rfl
  | host call => exact log_hostCall call
  | tick => rfl

theorem log_runEvents (events : List Event) :
    (s.runEvents exported events).2.2.log = s.log := by
  induction events generalizing s with
  | nil => rfl
  | cons e rest ih =>
    rcases runEvents_cons s exported e rest with h | h
    · rw [h]
    · rw [h]
      exact ih.trans (log_event e)

/-- The entry of an execution that starts in a store. -/
def entry (s : Store) (code : Code) (owner : Nat) (x : Behaviour) : Execution where
  code := code
  counter := s.clock.counter
  ticksLeft := s.deadline - s.clock.epoch
  counted := s.data.hostCallCount
  allowed := (s.runEvents (s.instances[owner]?).join x.events).2.1

theorem log_execute (code : Code) (owner : Nat) (x : Behaviour) :
    (s.execute code owner x).2.log = s.log ++ [.execution (s.entry code owner x)] := by
  show (s.runEvents _ x.events).2.2.log ++ _ = _
  rw [log_runEvents]
  rfl

end VirtualPlc.Host.Store

import VirtualPlc.Host.Runs

/-!
# De-energising on a fault

`fault` runs the fault code of the module before it zeroes the outputs, and returns early when that
code traps: the outputs are safe exactly when the code returns or leaves them safe itself
(`deenergised_fault_iff`).
-/

set_option autoImplicit false

namespace VirtualPlc.Host

open VirtualPlc.Runtime VirtualPlc.Word

/-- Both output regions are zero and the fault flag is set. -/
def OutputsSafe (m : Memory) : Prop :=
  (∀ i, doOffset ≤ i → i < doOffset + 4 → m.byte i = 0) ∧
    (∀ i, aoOffset ≤ i → i < aoOffset + 32 → m.byte i = 0) ∧
    BitVec.ofNat 32 (m.value (sysinfoOffset + 4) 4) &&& flagFaultMode ≠ 0

section Memory

variable {m : Memory}

/-- What `fault` does to a memory that holds the whole process image. -/
theorem outputsSafe_zeroOutputs (cycleTimeNs cycleCount : BitVec 64)
    (hsize : sysinfoOffset + sysinfoSize ≤ m.size) :
    OutputsSafe (writeSystemInfo (zeroOutputs m) ⟨cycleTimeNs, flagFaultMode, cycleCount, 1⟩) := by
  have hdo : doOffset + 4 ≤ sysinfoOffset := by decide
  have hao : aoOffset + 32 ≤ sysinfoOffset := by decide
  have hfits : aoOffset + 32 ≤ m.size := by omega
  refine ⟨fun i hlo hhi => ?_, fun i hlo hhi => ?_, ?_⟩
  · rw [byte_writeSystemInfo _ (by omega)]
    exact byte_zeroOutputs hfits (.inl ⟨hlo, hhi⟩)
  · rw [byte_writeSystemInfo _ (by omega)]
    exact byte_zeroOutputs hfits (.inr ⟨hlo, hhi⟩)
  · rw [flags_writeSystemInfo _ (by rwa [size_zeroOutputs])]
    show BitVec.ofNat 32 flagFaultMode.toNat &&& flagFaultMode ≠ 0
    decide

end Memory

namespace WasmtimeHost

variable {h : WasmtimeHost} {m : Memory}

/-- Guest code never takes the memory of the host away, and never shrinks it. -/
theorem currentMemory_callIfPresent (func : Option TypedFunc) (x : Behaviour)
    (hm : h.currentMemory = some m) :
    ∃ m', (h.callIfPresent func x).2.currentMemory = some m' ∧ m.size ≤ m'.size := by
  cases func with
  | none => exact ⟨m, hm, Nat.le_refl _⟩
  | some func =>
    obtain ⟨handle, hhandle, hat⟩ := Option.bind_eq_some_iff.1 hm
    let s := h.setEpochDeadline.ensureFuel.store
    have heffect := s.execute_effect (.exported func.function) func.owner x
    obtain ⟨m', hm', hle⟩ := heffect.grows handle m hat
    exact ⟨m', Option.bind_eq_some_iff.2 ⟨handle, hhandle, hm'⟩, hle⟩

/-- The fault code returns, or there is none. -/
def FaultReturns (h : WasmtimeHost) (x : Behaviour) : Prop :=
  (h.callIfPresent h.faultFn x).1 = .ok ()

/-- The memory of the module is safe. -/
def Deenergised (h : WasmtimeHost) : Prop := ∃ m, h.currentMemory = some m ∧ OutputsSafe m

theorem fault_of_returns {x : Behaviour} (hreturns : h.FaultReturns x) :
    ∃ cycleCount, (h.fault x).2 = (h.callIfPresent h.faultFn x).2.modifyMemory fun m =>
      writeSystemInfo (zeroOutputs m)
        ⟨(h.callIfPresent h.faultFn x).2.cycleTimeNs, flagFaultMode, cycleCount, 1⟩ := by
  rw [FaultReturns] at hreturns
  rw [fault]
  rcases hcall : h.callIfPresent h.faultFn x with ⟨r, h'⟩
  rw [hcall] at hreturns
  cases hreturns
  exact ⟨_, rfl⟩

/-- When the fault code traps, nothing follows it. -/
theorem fault_of_traps {x : Behaviour} (htraps : ¬ h.FaultReturns x) :
    (h.fault x).2 = (h.callIfPresent h.faultFn x).2 := by
  rw [FaultReturns] at htraps
  rw [fault]
  rcases hcall : h.callIfPresent h.faultFn x with ⟨r, h'⟩
  cases r with
  | ok u => exact absurd (by rw [hcall]) htraps
  | error e => rfl

/-- After `fault` the outputs are off and the flag is set exactly when the fault code returns, or
leaves the memory so when it traps. -/
theorem deenergised_fault_iff (x : Behaviour) (hm : h.currentMemory = some m)
    (hsize : sysinfoOffset + sysinfoSize ≤ m.size) :
    (h.fault x).2.Deenergised ↔
      h.FaultReturns x ∨ (h.callIfPresent h.faultFn x).2.Deenergised := by
  by_cases hreturns : h.FaultReturns x
  · refine ⟨fun _ => .inl hreturns, fun _ => ?_⟩
    obtain ⟨cycleCount, hfault⟩ := fault_of_returns hreturns
    obtain ⟨m', hm', hle⟩ := currentMemory_callIfPresent h.faultFn x hm
    rw [hfault]
    exact ⟨_, currentMemory_modifyMemory _ hm', outputsSafe_zeroOutputs _ _ (by omega)⟩
  · rw [fault_of_traps hreturns]
    exact ⟨.inr, fun h => h.resolve_left hreturns⟩

/-- Outputs that a step has switched on are off after fault code that switches on another one and
returns. -/
theorem deenergised_fault_plain :
    let stepped := ready.apply (.step .zero (.returning [.host (.writeDo 0 1)]))
    (∃ m, stepped.currentMemory = some m ∧ m.byte doOffset ≠ 0) ∧
      (stepped.fault (.returning [.host (.writeDo 1 1)])).2.Deenergised := by
  intro stepped
  refine ⟨⟨_, rfl, by decide⟩, ?_⟩
  exact (deenergised_fault_iff (h := stepped) (.returning [.host (.writeDo 1 1)]) rfl
    (by decide)).2 (.inl rfl)

/-- Fault code that traps at once leaves the outputs of the step before it on. -/
theorem deenergised_fault_fails :
    let stepped := ready.apply (.step .zero (.returning [.host (.writeDo 0 1)]))
    ∃ m, stepped.currentMemory = some m ∧ sysinfoOffset + sysinfoSize ≤ m.size ∧
      ¬ (stepped.fault (.trapping [])).2.Deenergised := by
  intro stepped
  refine ⟨_, rfl, by decide, ?_⟩
  rintro ⟨m, hm, hdo, -⟩
  have hbyte := hdo 4 (by decide) (by decide)
  cases hm
  revert hbyte
  decide

end WasmtimeHost

end VirtualPlc.Host

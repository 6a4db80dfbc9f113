import VirtualPlc.Host.Engine

/-!
# The regions that the host writes before a step

Before each step the host writes its inputs and the system information over whatever the program has
left in memory. Their regions have no gaps: what they say determines each of their bytes
(`Presents.byte_eq`), and no other byte is written (`byte_preStepImage`).
-/

set_option autoImplicit false

namespace VirtualPlc.Host

open VirtualPlc.Runtime VirtualPlc.Word

/-- Start of the program's own data. -/
def userDataOffset : Nat := 0x0068

/-- The memory as a step hands it to the program. -/
def preStepImage (data : ProcessData) (info : WasmSystemInfo) (m : Memory) : Memory :=
  writeSystemInfo (copyInputsToWasm m data) info

/-- A byte of the digital inputs, the analog inputs or the system information. -/
def HostOwned (i : Nat) : Prop :=
  diOffset ≤ i ∧ i < diOffset + 4 ∨ aiOffset ≤ i ∧ i < aiOffset + channels * 2 ∨
    sysinfoOffset ≤ i ∧ i < sysinfoOffset + sysinfoSize

/-- The regions show these inputs and this system information. -/
structure Presents (m : Memory) (data : ProcessData) (info : WasmSystemInfo) : Prop where
  digital : m.value diOffset 4 = (getElem data.digitalInputs 0 Nat.zero_lt_one).toNat
  analog : ∀ i : Fin 16, m.value (aiOffset + i.val * 2) 2 = (data.analogInputs.get i).toNat
  cycleTime : m.value sysinfoOffset 4 = min info.cycleTimeNs.toNat (2 ^ 31 - 1)
  flags : m.value (sysinfoOffset + 4) 4 = info.flags.toNat
  cycleCount : m.value (sysinfoOffset + 8) 8 = info.cycleCount.toNat
  faultCode : m.value (sysinfoOffset + 16) 4 = info.faultCode.toNat
  reserved : ∀ i, sysinfoOffset + 20 ≤ i → i < sysinfoOffset + sysinfoSize → m.byte i = 0

variable {m m' : Memory} {data : ProcessData} {info : WasmSystemInfo}

/-- What the regions show determines every byte of them. -/
theorem Presents.byte_eq (h : Presents m data info) (h' : Presents m' data info) {i : Nat}
    (hi : HostOwned i) : m.byte i = m'.byte i := by
  rcases hi with ⟨hlo, hhi⟩ | ⟨hlo, hhi⟩ | ⟨hlo, hhi⟩
  · exact Memory.byte_eq_of_value_eq (h.digital.trans h'.digital.symm) i hlo hhi
  · -- the channel that the byte belongs to
    simp only [aiOffset, channels] at hlo hhi
    have hchannel : (i - 8) / 2 < 16 := by omega
    have hvalue := (h.analog ⟨_, hchannel⟩).trans (h'.analog ⟨_, hchannel⟩).symm
    refine Memory.byte_eq_of_value_eq hvalue i ?_ ?_
    · simp only [aiOffset]
      omega
    · simp only [aiOffset]
      omega
  · simp only [sysinfoOffset, sysinfoSize] at hlo hhi
    by_cases hcycleTime : i < 0x4c
    · exact Memory.byte_eq_of_value_eq (h.cycleTime.trans h'.cycleTime.symm) i hlo hcycleTime
    by_cases hflags : i < 0x50
    · refine Memory.byte_eq_of_value_eq (h.flags.trans h'.flags.symm) i ?_ hflags
      simp only [sysinfoOffset]
      omega
    by_cases hcycleCount : i < 0x58
    · refine Memory.byte_eq_of_value_eq (h.cycleCount.trans h'.cycleCount.symm) i ?_ hcycleCount
      simp only [sysinfoOffset]
      omega
    by_cases hfaultCode : i < 0x5c
    · refine Memory.byte_eq_of_value_eq (h.faultCode.trans h'.faultCode.symm) i ?_ hfaultCode
      simp only [sysinfoOffset]
      omega
    · have hreserved : sysinfoOffset + 20 ≤ i := by
        simp only [sysinfoOffset]
        omega
      rw [h.reserved i hreserved hhi, h'.reserved i hreserved hhi]

/-! ## The inputs -/

/-- The channels of the analog inputs lie one after the other. -/
theorem pairwise_channels {offset : Nat} :
    (List.finRange 16).Pairwise fun i j => offset + i.val * 2 + 2 ≤ offset + j.val * 2 := by
  refine (List.pairwise_lt_finRange 16).imp fun hlt => ?_
  have hval := Fin.lt_def.mp hlt
  omega

theorem byte_copyInputsToWasm (data : ProcessData) {i : Nat} (hdi : diOffset + 4 ≤ i)
    (hai : i < aiOffset ∨ aiOffset + channels * 2 ≤ i) :
    (copyInputsToWasm m data).byte i = m.byte i := by
  rw [copyInputsToWasm, byte_foldl_storeIfFits, byte_storeIfFits (.inr hdi)]
  intro c _
  simp only [channels] at hai
  omega

theorem digital_copyInputsToWasm (data : ProcessData) (hfits : diOffset + 4 ≤ m.size) :
    (copyInputsToWasm m data).value diOffset 4 =
      (getElem data.digitalInputs 0 Nat.zero_lt_one).toNat := by
  have hfirst : ∀ i, diOffset ≤ i → i < diOffset + 4 → (copyInputsToWasm m data).byte i =
      (storeIfFits m diOffset 4 (getElem data.digitalInputs 0 Nat.zero_lt_one).toNat).byte i := by
    intro i _ hi
    rw [copyInputsToWasm, byte_foldl_storeIfFits]
    intro c _
    simp only [diOffset, aiOffset] at hi ⊢
    omega
  rw [Memory.value_congr hfirst, value_storeIfFits (by rfl) hfits]

theorem analog_copyInputsToWasm (data : ProcessData) (i : Fin 16)
    (hfits : aiOffset + i.val * 2 + 2 ≤ m.size) :
    (copyInputsToWasm m data).value (aiOffset + i.val * 2) 2 = (data.analogInputs.get i).toNat := by
  rw [copyInputsToWasm, value_foldl_storeIfFits (by rfl) _ pairwise_channels (List.mem_finRange i)]
  rwa [size_storeIfFits]

/-! ## The image of a step -/

theorem size_preStepImage : (preStepImage data info m).size = m.size := by
  rw [preStepImage, size_writeSystemInfo, size_copyInputsToWasm]

theorem byte_preStepImage {i : Nat} (hi : ¬ HostOwned i) :
    (preStepImage data info m).byte i = m.byte i := by
  have hparts : (diOffset + 4 ≤ i ∧ (i < aiOffset ∨ aiOffset + channels * 2 ≤ i)) ∧
      (i < sysinfoOffset ∨ sysinfoOffset + sysinfoSize ≤ i) := by
    simp only [HostOwned, diOffset] at hi ⊢
    omega
  rw [preStepImage, byte_writeSystemInfo info hparts.2,
    byte_copyInputsToWasm data hparts.1.1 hparts.1.2]

/-- The system information is read back, field by field. -/
theorem fields_writeSystemInfo (info : WasmSystemInfo)
    (hsize : sysinfoOffset + sysinfoSize ≤ m.size) :
    (writeSystemInfo m info).value sysinfoOffset 4 = (cappedCycleTime info.cycleTimeNs).toNat ∧
      (writeSystemInfo m info).value (sysinfoOffset + 8) 8 = info.cycleCount.toNat ∧
      (writeSystemInfo m info).value (sysinfoOffset + 16) 4 = info.faultCode.toNat := by
  rw [writeSystemInfo, if_pos hsize]
  refine ⟨?_, ?_, ?_⟩
  · rw [Memory.value_set_of_disjoint (.inl (by omega)),
      Memory.value_set_of_disjoint (.inl (by omega)),
      Memory.value_set_of_disjoint (.inl (by omega)),
      Memory.value_set_of_disjoint (.inl (by omega)), Memory.value_set_toNat (by rfl)]
  · rw [Memory.value_set_of_disjoint (.inl (by omega)),
      Memory.value_set_of_disjoint (.inl (by omega)), Memory.value_set_toNat (by rfl)]
  · rw [Memory.value_set_of_disjoint (.inl (by omega)), Memory.value_set_toNat (by rfl)]

/-- The reserved bytes are zero. -/
theorem reserved_writeSystemInfo (info : WasmSystemInfo)
    (hsize : sysinfoOffset + sysinfoSize ≤ m.size) {i : Nat} (hlo : sysinfoOffset + 20 ≤ i)
    (hhi : i < sysinfoOffset + sysinfoSize) : (writeSystemInfo m info).byte i = 0 := by
  have hin : sysinfoOffset + 20 ≤ i ∧ i < sysinfoOffset + 20 + 12 := ⟨hlo, hhi⟩
  rw [writeSystemInfo, if_pos hsize, Memory.byte_set, if_pos hin, Nat.zero_div]
  rfl

theorem toNat_cappedCycleTime (cycleTimeNs : BitVec 64) :
    (cappedCycleTime cycleTimeNs).toNat = min cycleTimeNs.toNat (2 ^ 31 - 1) := by
  rw [cappedCycleTime, BitVec.toNat_ofNat]
  omega

/-- A memory that is large enough shows the inputs and the system information. -/
theorem presents_preStepImage (data : ProcessData) (info : WasmSystemInfo)
    (hsize : userDataOffset ≤ m.size) : Presents (preStepImage data info m) data info := by
  have hfits : sysinfoOffset + sysinfoSize ≤ (copyInputsToWasm m data).size := by
    rwa [size_copyInputsToWasm]
  rw [preStepImage]
  have hkept : ∀ {a n : Nat}, a + n ≤ sysinfoOffset →
      (writeSystemInfo (copyInputsToWasm m data) info).value a n =
        (copyInputsToWasm m data).value a n := by
    intro a n h
    exact Memory.value_congr fun i _ hi => byte_writeSystemInfo info (.inl (lt_of_lt_of_le hi h))
  obtain ⟨hcycleTime, hcycleCount, hfaultCode⟩ := fields_writeSystemInfo info hfits
  simp only [userDataOffset] at hsize
  constructor
  case digital =>
    rw [hkept (by decide), digital_copyInputsToWasm]
    simp only [diOffset]
    omega
  case analog =>
    intro i
    have hchannel := i.isLt
    rw [hkept (by simp only [aiOffset, sysinfoOffset]; omega), analog_copyInputsToWasm]
    simp only [aiOffset]
    omega
  case cycleTime => exact hcycleTime.trans (toNat_cappedCycleTime info.cycleTimeNs)
  case flags => exact flags_writeSystemInfo info hfits
  case cycleCount => exact hcycleCount
  case faultCode => exact hfaultCode
  case reserved => exact fun i hlo hhi => reserved_writeSystemInfo info hfits hlo hhi

/-- Whatever earlier cycles have left in two memories, a step hands the program the same inputs and
the same system information in both, and leaves all other bytes alone. -/
theorem preStepImage_inputs {m₁ m₂ : Memory} (data : ProcessData) (info : WasmSystemInfo)
    (h₁ : userDataOffset ≤ m₁.size) (h₂ : userDataOffset ≤ m₂.size) :
    (∀ i, HostOwned i →
        (preStepImage data info m₁).byte i = (preStepImage data info m₂).byte i) ∧
      Presents (preStepImage data info m₁) data info ∧
      Presents (preStepImage data info m₂) data info ∧
      (∀ i, ¬ HostOwned i → (preStepImage data info m₁).byte i = m₁.byte i ∧
        (preStepImage data info m₂).byte i = m₂.byte i) ∧
      (preStepImage data info m₁).size = m₁.size ∧ (preStepImage data info m₂).size = m₂.size := by
  have hleft := presents_preStepImage data info h₁
  have hright := presents_preStepImage data info h₂
  refine ⟨fun i hi => hleft.byte_eq hright hi, hleft, hright, fun i hi => ?_, ?_⟩
  · exact ⟨byte_preStepImage hi, byte_preStepImage hi⟩
  · exact ⟨size_preStepImage, size_preStepImage⟩

/-- A fresh page, and the smallest memory full of a program's leavings. -/
theorem preStepImage_inputs_pages :
    Presents (preStepImage .zero ⟨1000000, flagFirstCycle, 0, 0⟩ (.zeroed 65536)) .zero
        ⟨1000000, flagFirstCycle, 0, 0⟩ ∧
      Presents (preStepImage .zero ⟨1000000, flagFirstCycle, 0, 0⟩ ⟨104, fun _ => 0xff⟩) .zero
        ⟨1000000, flagFirstCycle, 0, 0⟩ := by
  have hpage : userDataOffset ≤ (Memory.zeroed 65536).size := by decide
  have hsmall : userDataOffset ≤ (⟨104, fun _ => 0xff⟩ : Memory).size := by decide
  obtain ⟨-, hfresh, hused, -⟩ :=
    preStepImage_inputs .zero ⟨1000000, flagFirstCycle, 0, 0⟩ hpage hsmall
  exact ⟨hfresh, hused⟩

/-- A step calls the program on this image. -/
theorem WasmtimeHost.currentMemory_preStep {h : WasmtimeHost} (hm : h.currentMemory = some m)
    (inputs : ProcessData) :
    (h.modifyMemory fun m => writeSystemInfo (copyInputsToWasm m inputs) h.stepInfo).currentMemory =
      some (preStepImage inputs h.stepInfo m) :=
  currentMemory_modifyMemory _ hm

end VirtualPlc.Host

import VirtualPlc.Host.InputRegions

/-!
# Two paths to the inputs and outputs

A bit or a channel can be accessed in Wasm memory or in process data. Decoding the outputs of a
memory commutes with the writes (`decode_write`), and the reads agree on inputs that have been
copied into memory (`readDi_copied`, `readAi_copied`).
-/

set_option autoImplicit false

namespace VirtualPlc.Host

open VirtualPlc.Runtime VirtualPlc.Word

/-- A write of a digital output bit or of an analog output, by its number. -/
inductive OutputWrite where
  | digital (bit : BitVec 32) (value : Bool)
  | analog (channel : BitVec 32) (value : BitVec 16)
deriving DecidableEq, Repr

namespace OutputWrite

/-- The write in Wasm memory. -/
def toMemory (m : Memory) : OutputWrite → Memory
  | digital bit value => writeDoToMemory m bit value
  | analog channel value => writeAoToMemory m channel value

/-- The write in process data. -/
def toData (data : ProcessData) : OutputWrite → ProcessData
  | digital bit value => data.writeDo bit.toNat value
  | analog channel value => data.writeAo channel.toNat value

@[simp] theorem size_toMemory {m : Memory} (write : OutputWrite) :
    (write.toMemory m).size = m.size := by
  cases write with
  | digital bit value => exact size_writeDoToMemory bit value
  | analog channel value => exact size_writeAoToMemory channel value

end OutputWrite

variable {m : Memory} {data : ProcessData}

/-- Decoding a memory that holds all outputs. -/
theorem copyOutputsFromWasm_eq (data : ProcessData) (hsize : sysinfoOffset ≤ m.size) :
    copyOutputsFromWasm m data =
      { data with
        digitalOutputs :=
          data.digitalOutputs.set 0 (BitVec.ofNat 32 (m.value doOffset 4)) Nat.zero_lt_one
        analogOutputs :=
          Vector.ofFn fun i => BitVec.ofNat 16 (m.value (aoOffset + i.val * 2) 2) } := by
  simp only [sysinfoOffset] at hsize
  have hdo : doOffset + 4 ≤ m.size := by
    simp only [doOffset]
    omega
  have hao : ∀ i : Fin 16, aoOffset + i.val * 2 + 2 ≤ m.size := by
    intro i
    have hi := i.isLt
    simp only [aoOffset]
    omega
  rw [copyOutputsFromWasm, if_pos hdo]
  simp only [hao, if_true]

/-- A new digital word in memory is what the decoder finds. -/
theorem decode_setDigital (word : BitVec 32) (hsize : sysinfoOffset ≤ m.size) :
    copyOutputsFromWasm (m.set doOffset 4 word.toNat) data =
      { copyOutputsFromWasm m data with
        digitalOutputs :=
          (copyOutputsFromWasm m data).digitalOutputs.set 0 word Nat.zero_lt_one } := by
  have hdo : (m.set doOffset 4 word.toNat).value doOffset 4 = word.toNat :=
    Memory.value_set_toNat (by rfl)
  have hao : ∀ i : Fin 16, (m.set doOffset 4 word.toNat).value (aoOffset + i.val * 2) 2 =
      m.value (aoOffset + i.val * 2) 2 := by
    intro i
    refine Memory.value_set_of_disjoint (.inr ?_)
    simp only [doOffset, aoOffset]
    omega
  have hsize' : sysinfoOffset ≤ (m.set doOffset 4 word.toNat).size := hsize
  rw [copyOutputsFromWasm_eq data hsize', copyOutputsFromWasm_eq data hsize]
  simp only [hdo, hao, BitVec.ofNat_toNat, BitVec.setWidth_eq, Vector.set_set]

/-- So is a new analog value, at its channel. -/
theorem decode_setAnalog (channel : Fin 16) (value : BitVec 16) (hsize : sysinfoOffset ≤ m.size) :
    copyOutputsFromWasm (m.set (aoOffset + channel.val * 2) 2 value.toNat) data =
      { copyOutputsFromWasm m data with
        analogOutputs := (copyOutputsFromWasm m data).analogOutputs.set channel.val value } := by
  have hdo : (m.set (aoOffset + channel.val * 2) 2 value.toNat).value doOffset 4 =
      m.value doOffset 4 := by
    refine Memory.value_set_of_disjoint (.inl ?_)
    simp only [doOffset, aoOffset]
    omega
  have hother : ∀ i : Nat, i ≠ channel.val →
      (m.set (aoOffset + channel.val * 2) 2 value.toNat).value (aoOffset + i * 2) 2 =
        m.value (aoOffset + i * 2) 2 := by
    intro i hi
    exact Memory.value_set_of_disjoint (by omega)
  have hsize' : sysinfoOffset ≤ (m.set (aoOffset + channel.val * 2) 2 value.toNat).size := hsize
  rw [copyOutputsFromWasm_eq data hsize', copyOutputsFromWasm_eq data hsize, hdo]
  rw [ProcessData.mk.injEq]
  refine ⟨rfl, rfl, rfl, Vector.ext fun i hi => ?_⟩
  rw [Vector.getElem_ofFn, Vector.getElem_set, Vector.getElem_ofFn]
  by_cases hchannel : channel.val = i
  · subst hchannel
    rw [if_pos rfl, Memory.value_set_toNat (by rfl), BitVec.ofNat_toNat, BitVec.setWidth_eq]
  · rw [if_neg hchannel, hother i (Ne.symm hchannel)]

theorem decode_writeDo (bit : BitVec 32) (value : Bool) (hsize : sysinfoOffset ≤ m.size) :
    copyOutputsFromWasm (writeDoToMemory m bit value) data =
      (copyOutputsFromWasm m data).writeDo bit.toNat value := by
  rcases Nat.lt_or_ge bit.toNat 32 with hlt | hge
  · have hfits : ¬ (32 ≤ bit.toNat ∨ m.size < doOffset + 4) := by
      simp only [sysinfoOffset, doOffset] at hsize ⊢
      omega
    have hmask : ((1 <<< bit.toNat : Nat) : BitVec 32) = (1 : BitVec 32) <<< bit.toNat :=
      BitVec.eq_of_toNat_eq (by simp [BitVec.toNat_shiftLeft])
    have hword : getElem (copyOutputsFromWasm m data).digitalOutputs 0 Nat.zero_lt_one =
        BitVec.ofNat 32 (m.value doOffset 4) := by
      rw [copyOutputsFromWasm_eq data hsize]
      exact Vector.getElem_set_self Nat.zero_lt_one
    rw [ProcessData.writeDo_of_lt hlt, hword, writeDoToMemory, if_neg hfits]
    simp only [hmask]
    exact decode_setDigital _ hsize
  · rw [ProcessData.writeDo_of_le hge, writeDoToMemory, if_pos (.inl hge)]

theorem decode_writeAo (channel : BitVec 32) (value : BitVec 16) (hsize : sysinfoOffset ≤ m.size) :
    copyOutputsFromWasm (writeAoToMemory m channel value) data =
      (copyOutputsFromWasm m data).writeAo channel.toNat value := by
  rcases Nat.lt_or_ge channel.toNat channels with hlt | hge
  · have hfits : ¬ m.size < aoOffset + channel.toNat * 2 + 2 := by
      simp only [sysinfoOffset, aoOffset, channels] at hsize hlt ⊢
      omega
    rw [ProcessData.writeAo_of_lt hlt, writeAoToMemory, if_neg (Nat.not_le.mpr hlt)]
    simp only [if_neg hfits]
    exact decode_setAnalog ⟨channel.toNat, hlt⟩ value hsize
  · rw [ProcessData.writeAo_of_le hge, writeAoToMemory, if_pos hge]

/-- Decoding commutes with one write. -/
theorem decode_write (write : OutputWrite) (hsize : sysinfoOffset ≤ m.size) :
    copyOutputsFromWasm (write.toMemory m) data = write.toData (copyOutputsFromWasm m data) := by
  cases write with
  | digital bit value => exact decode_writeDo bit value hsize
  | analog channel value => exact decode_writeAo channel value hsize

/-- And with any sequence of them. -/
theorem decode_writes (writes : List OutputWrite) (hsize : sysinfoOffset ≤ m.size) :
    copyOutputsFromWasm (writes.foldl OutputWrite.toMemory m) data =
      writes.foldl OutputWrite.toData (copyOutputsFromWasm m data) := by
  induction writes generalizing m with
  | nil => rfl
  | cons write rest ih =>
    rw [List.foldl_cons, List.foldl_cons, ← decode_write write hsize]
    exact ih (by rwa [OutputWrite.size_toMemory])

/-! ## Reading the inputs -/

theorem readDi_copied (data : ProcessData) (bit : BitVec 32) (hsize : sysinfoOffset ≤ m.size) :
    readDiFromMemory (copyInputsToWasm m data) bit = data.readDi bit.toNat := by
  have hdi : diOffset + 4 ≤ m.size := by
    simp only [sysinfoOffset, diOffset] at hsize ⊢
    omega
  rcases Nat.lt_or_ge bit.toNat 32 with hlt | hge
  · rw [ProcessData.readDi_of_lt hlt, readDiFromMemory, size_copyInputsToWasm, if_neg (by omega),
      digital_copyInputsToWasm data hdi, BitVec.ofNat_toNat, BitVec.setWidth_eq]
  · rw [ProcessData.readDi_of_le hge, readDiFromMemory, if_pos (.inl hge)]

theorem readAi_copied (data : ProcessData) (channel : BitVec 32) (hsize : sysinfoOffset ≤ m.size) :
    readAiFromMemory (copyInputsToWasm m data) channel = data.readAi channel.toNat := by
  rcases Nat.lt_or_ge channel.toNat channels with hlt | hge
  · have hfits : aiOffset + channel.toNat * 2 + 2 ≤ m.size := by
      simp only [sysinfoOffset, aiOffset, channels] at hsize hlt ⊢
      omega
    have hvalue := analog_copyInputsToWasm data ⟨channel.toNat, hlt⟩ hfits
    rw [readAiFromMemory, if_neg (Nat.not_le.mpr hlt)]
    simp only [size_copyInputsToWasm, if_neg (Nat.not_lt.mpr hfits)]
    rw [hvalue, BitVec.ofNat_toNat, BitVec.setWidth_eq, ProcessData.readAi_of_lt hlt]
    rfl
  · rw [ProcessData.readAi_of_le hge, readAiFromMemory, if_pos hge]

/-- The two paths agree: sequences of output writes, and reads of copied inputs at every number. -/
theorem paths_agree (data : ProcessData) (hsize : sysinfoOffset ≤ m.size) :
    (∀ writes : List OutputWrite, copyOutputsFromWasm (writes.foldl OutputWrite.toMemory m) data =
        writes.foldl OutputWrite.toData (copyOutputsFromWasm m data)) ∧
      (∀ bit, readDiFromMemory (copyInputsToWasm m data) bit = data.readDi bit.toNat) ∧
      ∀ channel, readAiFromMemory (copyInputsToWasm m data) channel = data.readAi channel.toNat :=
  ⟨fun writes => decode_writes writes hsize, fun bit => readDi_copied data bit hsize,
    fun channel => readAi_copied data channel hsize⟩

/-- The smallest memory; the last bit, the last channel and numbers that are out of range. -/
theorem paths_agree_last :
    copyOutputsFromWasm ([.digital 31 true, .analog 15 0x7fff, .digital 32 true, .analog 16 1].foldl
        OutputWrite.toMemory (.zeroed 72)) .zero =
      [.digital 31 true, .analog 15 0x7fff, .digital 32 true, .analog 16 1].foldl
        OutputWrite.toData (copyOutputsFromWasm (.zeroed 72) .zero) :=
  (paths_agree .zero (by decide)).1 _

end VirtualPlc.Host

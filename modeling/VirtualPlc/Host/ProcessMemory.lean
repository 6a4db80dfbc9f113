import VirtualPlc.Runtime.IoImage
import VirtualPlc.Word.Memory

/-!
# The process image in Wasm memory

The fixed offsets of the inputs, outputs and system information, and the functions that copy them.
Every access checks the size of the memory first and does nothing when it does not fit.
-/

set_option autoImplicit false

namespace VirtualPlc.Host

open VirtualPlc.Runtime VirtualPlc.Word

/-- Offset of the digital inputs. -/
def diOffset : Nat := 0x0000

/-- Offset of the digital outputs. -/
def doOffset : Nat := 0x0004

/-- Offset of the analog inputs. -/
def aiOffset : Nat := 0x0008

/-- Offset of the analog outputs. -/
def aoOffset : Nat := 0x0028

/-- Offset of the system information. -/
def sysinfoOffset : Nat := 0x0048

/-- Size of the system information. -/
def sysinfoSize : Nat := 32

/-- Number of analog channels, in and out. -/
def channels : Nat := 16

/-- System information for the program. -/
structure WasmSystemInfo where
  cycleTimeNs : BitVec 64
  flags : BitVec 32
  cycleCount : BitVec 64
  faultCode : BitVec 32
deriving DecidableEq, Repr

/-- Flag of the first cycle after `init`. -/
def flagFirstCycle : BitVec 32 := 0x01

/-- Flag of fault mode. -/
def flagFaultMode : BitVec 32 := 0x02

/-- Stores the low `n` bytes of `v`, if they fit. -/
def storeIfFits (m : Memory) (offset n v : Nat) : Memory :=
  if offset + n ≤ m.size then m.set offset n v else m

/-- Copies the inputs into memory. -/
def copyInputsToWasm (m : Memory) (data : ProcessData) : Memory :=
  (List.finRange 16).foldl
    (fun m i => storeIfFits m (aiOffset + i.val * 2) 2 (data.analogInputs.get i).toNat)
    (storeIfFits m diOffset 4 (getElem data.digitalInputs 0 Nat.zero_lt_one).toNat)

/-- Copies the outputs from memory. What does not fit keeps its value. -/
def copyOutputsFromWasm (m : Memory) (data : ProcessData) : ProcessData :=
  { data with
    digitalOutputs :=
      if doOffset + 4 ≤ m.size then
        data.digitalOutputs.set 0 (BitVec.ofNat 32 (m.value doOffset 4)) Nat.zero_lt_one
      else data.digitalOutputs
    analogOutputs := Vector.ofFn fun i =>
      if aoOffset + i.val * 2 + 2 ≤ m.size then
        BitVec.ofNat 16 (m.value (aoOffset + i.val * 2) 2)
      else data.analogOutputs.get i }

/-- The cycle time as the program sees it, capped at the largest `i32`. -/
def cappedCycleTime (cycleTimeNs : BitVec 64) : BitVec 32 :=
  BitVec.ofNat 32 (min cycleTimeNs.toNat (2 ^ 31 - 1))

/-- Writes the system information, with zeros in the reserved bytes. -/
def writeSystemInfo (m : Memory) (info : WasmSystemInfo) : Memory :=
  if sysinfoOffset + sysinfoSize ≤ m.size then
    ((((m.set sysinfoOffset 4 (cappedCycleTime info.cycleTimeNs).toNat).set
      (sysinfoOffset + 4) 4 info.flags.toNat).set
      (sysinfoOffset + 8) 8 info.cycleCount.toNat).set
      (sysinfoOffset + 16) 4 info.faultCode.toNat).set
      (sysinfoOffset + 20) 12 0
  else m

/-- The outputs of a memory set to zero, as far as they fit. -/
def zeroOutputs (m : Memory) : Memory :=
  storeIfFits (storeIfFits m doOffset 4 0) aoOffset 32 0

/-- Reads a digital input bit. -/
def readDiFromMemory (m : Memory) (bit : BitVec 32) : Bool :=
  if 32 ≤ bit.toNat ∨ m.size < diOffset + 4 then false
  else (BitVec.ofNat 32 (m.value diOffset 4)).getLsbD bit.toNat

/-- Writes a digital output bit. -/
def writeDoToMemory (m : Memory) (bit : BitVec 32) (value : Bool) : Memory :=
  if 32 ≤ bit.toNat ∨ m.size < doOffset + 4 then m
  else
    let word := BitVec.ofNat 32 (m.value doOffset 4)
    let mask : BitVec 32 := 1 <<< bit.toNat
    let word := if value then word ||| mask else word &&& ~~~mask
    m.set doOffset 4 word.toNat

/-- Reads an analog input. -/
def readAiFromMemory (m : Memory) (channel : BitVec 32) : BitVec 16 :=
  if channels ≤ channel.toNat then 0
  else
    let offset := aiOffset + channel.toNat * 2
    if m.size < offset + 2 then 0 else BitVec.ofNat 16 (m.value offset 2)

/-- Writes an analog output. -/
def writeAoToMemory (m : Memory) (channel : BitVec 32) (value : BitVec 16) : Memory :=
  if channels ≤ channel.toNat then m
  else
    let offset := aoOffset + channel.toNat * 2
    if m.size < offset + 2 then m else m.set offset 2 value.toNat

/-! ## Sizes -/

variable {m : Memory}

@[simp] theorem size_storeIfFits (offset n v : Nat) : (storeIfFits m offset n v).size = m.size := by
  rw [storeIfFits]
  split
  · rfl
  · rfl

@[simp] theorem size_copyInputsToWasm (data : ProcessData) :
    (copyInputsToWasm m data).size = m.size := by
  have hfold : ∀ (channels : List (Fin 16)) (m : Memory),
      (channels.foldl
        (fun m i => storeIfFits m (aiOffset + i.val * 2) 2 (data.analogInputs.get i).toNat)
        m).size = m.size := by
    intro channels
    induction channels with
    | nil => exact fun _ => rfl
    | cons i rest ih =>
      intro m
      rw [List.foldl_cons, ih, size_storeIfFits]
  rw [copyInputsToWasm, hfold, size_storeIfFits]

@[simp] theorem size_writeSystemInfo (info : WasmSystemInfo) :
    (writeSystemInfo m info).size = m.size := by
  rw [writeSystemInfo]
  split
  · rfl
  · rfl

@[simp] theorem size_writeDoToMemory (bit : BitVec 32) (value : Bool) :
    (writeDoToMemory m bit value).size = m.size := by
  rw [writeDoToMemory]
  split
  · rfl
  · rfl

@[simp] theorem size_writeAoToMemory (channel : BitVec 32) (value : BitVec 16) :
    (writeAoToMemory m channel value).size = m.size := by
  rw [writeAoToMemory]
  dsimp only
  split
  · rfl
  · split
    · rfl
    · rfl

/-! ## Bytes -/

theorem byte_storeIfFits {offset n v i : Nat} (hi : i < offset ∨ offset + n ≤ i) :
    (storeIfFits m offset n v).byte i = m.byte i := by
  rw [storeIfFits]
  split
  · exact Memory.byte_set_of_outside hi
  · rfl

theorem value_storeIfFits {offset n w : Nat} {x : BitVec w} (hw : w = 8 * n)
    (hfits : offset + n ≤ m.size) : (storeIfFits m offset n x.toNat).value offset n = x.toNat := by
  rw [storeIfFits, if_pos hfits, Memory.value_set_toNat hw]

/-- Several stores leave every byte alone that is outside of all of them. -/
theorem byte_foldl_storeIfFits {ι : Type} {offset v : ι → Nat} {n i : Nat} (xs : List ι)
    (m : Memory) (hi : ∀ x ∈ xs, i < offset x ∨ offset x + n ≤ i) :
    (xs.foldl (fun m x => storeIfFits m (offset x) n (v x)) m).byte i = m.byte i := by
  induction xs generalizing m with
  | nil => rfl
  | cons x rest ih =>
    rw [List.foldl_cons, ih _ fun y hy => hi y (List.mem_cons_of_mem x hy)]
    exact byte_storeIfFits (hi x List.mem_cons_self)

/-- Of several stores one after the other in memory, each is read back. -/
theorem value_foldl_storeIfFits {ι : Type} {offset : ι → Nat} {n w : Nat} {v : ι → BitVec w}
    (hw : w = 8 * n) {xs : List ι} (m : Memory)
    (hpairwise : xs.Pairwise fun x y => offset x + n ≤ offset y) {x : ι} (hx : x ∈ xs)
    (hfits : offset x + n ≤ m.size) :
    (xs.foldl (fun m x => storeIfFits m (offset x) n (v x).toNat) m).value (offset x) n =
      (v x).toNat := by
  induction xs generalizing m with
  | nil => cases hx
  | cons y rest ih =>
    obtain ⟨hy, hrest⟩ := List.pairwise_cons.mp hpairwise
    rw [List.foldl_cons]
    rcases List.mem_cons.mp hx with rfl | hmem
    · -- the later stores come after this one in memory
      refine Eq.trans (Memory.value_congr fun i _ hi => ?_) (value_storeIfFits hw hfits)
      exact byte_foldl_storeIfFits rest _ fun z hz => .inl (lt_of_lt_of_le hi (hy z hz))
    · exact ih _ hrest hmem (by rwa [size_storeIfFits])

theorem byte_writeSystemInfo (info : WasmSystemInfo) {i : Nat}
    (hi : i < sysinfoOffset ∨ sysinfoOffset + sysinfoSize ≤ i) :
    (writeSystemInfo m info).byte i = m.byte i := by
  simp only [sysinfoSize] at hi
  rw [writeSystemInfo]
  split
  · rw [Memory.byte_set_of_outside (by omega), Memory.byte_set_of_outside (by omega),
      Memory.byte_set_of_outside (by omega), Memory.byte_set_of_outside (by omega),
      Memory.byte_set_of_outside (by omega)]
  · rfl

/-- The flags are read back from the system information. -/
theorem flags_writeSystemInfo (info : WasmSystemInfo)
    (hsize : sysinfoOffset + sysinfoSize ≤ m.size) :
    (writeSystemInfo m info).value (sysinfoOffset + 4) 4 = info.flags.toNat := by
  rw [writeSystemInfo, if_pos hsize, Memory.value_set_of_disjoint (.inl (by omega)),
    Memory.value_set_of_disjoint (.inl (by omega)), Memory.value_set_of_disjoint (.inl (by omega)),
    Memory.value_set_toNat (by rfl)]

@[simp] theorem size_zeroOutputs : (zeroOutputs m).size = m.size := by
  rw [zeroOutputs, size_storeIfFits, size_storeIfFits]

theorem byte_zeroOutputs {i : Nat} (hsize : aoOffset + 32 ≤ m.size)
    (hi : doOffset ≤ i ∧ i < doOffset + 4 ∨ aoOffset ≤ i ∧ i < aoOffset + 32) :
    (zeroOutputs m).byte i = 0 := by
  have hdo : doOffset + 4 ≤ m.size := by
    simp only [doOffset, aoOffset] at hsize ⊢
    omega
  rw [zeroOutputs, storeIfFits, size_storeIfFits, if_pos hsize, storeIfFits, if_pos hdo]
  rcases hi with hi | hi
  · rw [Memory.byte_set_of_outside (.inl (by simp only [doOffset, aoOffset] at hi ⊢; omega)),
      Memory.byte_set, if_pos hi, Nat.zero_div]
    rfl
  · rw [Memory.byte_set, if_pos hi, Nat.zero_div]
    rfl

end VirtualPlc.Host

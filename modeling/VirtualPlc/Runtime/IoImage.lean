import VirtualPlc.Runtime.State
import VirtualPlc.Word.Bits

/-!
# The process image

Two double buffers: the loop writes inputs and reads outputs, the logic the other way round. A write
goes to the back buffer, which still holds the image before the last one, and then swaps. The loop
and the logic run in one thread, so the sequence number never stops a read and is left out.
-/

set_option autoImplicit false

namespace VirtualPlc.Runtime

open VirtualPlc.Word

/-- Raw process data. -/
structure ProcessData where
  digitalInputs : Vector (BitVec 32) 1
  digitalOutputs : Vector (BitVec 32) 1
  analogInputs : Vector (BitVec 16) 16
  analogOutputs : Vector (BitVec 16) 16
deriving DecidableEq, Repr

/-- All values zero. -/
def ProcessData.zero : ProcessData where
  digitalInputs := Vector.replicate 1 0
  digitalOutputs := Vector.replicate 1 0
  analogInputs := Vector.replicate 16 0
  analogOutputs := Vector.replicate 16 0

namespace ProcessData

/-- Reads a digital input bit. -/
def readDi (data : ProcessData) (bit : Nat) : Bool :=
  if h : bit / 32 < 1 then (data.digitalInputs[bit / 32] >>> (bit % 32)) &&& 1 ≠ 0 else false

/-- Writes a digital output bit. -/
def writeDo (data : ProcessData) (bit : Nat) (value : Bool) : ProcessData :=
  if h : bit / 32 < 1 then
    let word := data.digitalOutputs[bit / 32]
    let mask := (1 : BitVec 32) <<< (bit % 32)
    let word := if value then word ||| mask else word &&& ~~~mask
    { data with digitalOutputs := data.digitalOutputs.set (bit / 32) word }
  else data

/-- Reads an analog input. -/
def readAi (data : ProcessData) (channel : Nat) : BitVec 16 := data.analogInputs[channel]?.getD 0

/-- Writes an analog output. -/
def writeAo (data : ProcessData) (channel : Nat) (value : BitVec 16) : ProcessData :=
  if h : channel < 16 then { data with analogOutputs := data.analogOutputs.set channel value }
  else data

variable {data : ProcessData} {bit : Nat}

/-- Bits of the first word, which is the only one. -/
theorem readDi_of_lt (h : bit < 32) :
    data.readDi bit = (getElem data.digitalInputs 0 Nat.zero_lt_one).getLsbD bit := by
  have hword : bit / 32 = 0 := Nat.div_eq_of_lt h
  simp only [readDi, hword, Nat.mod_eq_of_lt h, Nat.zero_lt_one, dif_pos]
  exact decide_shift_and_one (getElem data.digitalInputs 0 Nat.zero_lt_one) bit

theorem readDi_of_le (h : 32 ≤ bit) : data.readDi bit = false := by
  rw [readDi, dif_neg]
  omega

theorem writeDo_of_lt (h : bit < 32) (value : Bool) :
    data.writeDo bit value = { data with
      digitalOutputs := data.digitalOutputs.set 0
        (if value then getElem data.digitalOutputs 0 Nat.zero_lt_one ||| (1 : BitVec 32) <<< bit
          else getElem data.digitalOutputs 0 Nat.zero_lt_one &&& ~~~((1 : BitVec 32) <<< bit))
            Nat.zero_lt_one } := by
  have hword : bit / 32 = 0 := Nat.div_eq_of_lt h
  simp only [writeDo, hword, Nat.mod_eq_of_lt h, Nat.zero_lt_one, dif_pos]

theorem writeDo_of_le (h : 32 ≤ bit) (value : Bool) : data.writeDo bit value = data := by
  rw [writeDo, dif_neg]
  omega

/-- A bit write leaves the other bits alone. -/
theorem getLsbD_writeDo_of_ne {other : Nat} (hother : other < 32) (hne : other ≠ bit)
    (value : Bool) :
    (getElem (data.writeDo other value).digitalOutputs 0 Nat.zero_lt_one).getLsbD bit =
      (getElem data.digitalOutputs 0 Nat.zero_lt_one).getLsbD bit := by
  rw [writeDo_of_lt hother]
  dsimp only
  rw [Vector.getElem_set_self]
  generalize getElem data.digitalOutputs 0 Nat.zero_lt_one = word
  have hmask : ((1 : BitVec 32) <<< other).getLsbD bit = false := by
    rw [BitVec.getLsbD_shiftLeft]
    by_cases hle : other ≤ bit
    · have hpos : bit - other ≠ 0 := by omega
      simp [hpos]
    · simp [Nat.lt_of_not_le hle]
  cases value with
  | true => rw [if_pos rfl, BitVec.getLsbD_or, hmask, Bool.or_false]
  | false =>
    rw [if_neg Bool.false_ne_true, BitVec.getLsbD_and, BitVec.getLsbD_not, hmask]
    by_cases hbit : bit < 32
    · simp [hbit]
    · simp [BitVec.getLsbD_of_ge _ _ (Nat.not_lt.mp hbit)]

theorem readAi_of_lt {channel : Nat} (h : channel < 16) :
    data.readAi channel = data.analogInputs[channel] := by
  rw [readAi, Vector.getElem?_eq_getElem h]
  rfl

theorem readAi_of_le {channel : Nat} (h : 16 ≤ channel) : data.readAi channel = 0 := by
  rw [readAi, Vector.getElem?_eq_none h]
  rfl

theorem writeAo_of_lt {channel : Nat} (h : channel < 16) (value : BitVec 16) :
    data.writeAo channel value =
      { data with analogOutputs := data.analogOutputs.set channel value } := dif_pos h

theorem writeAo_of_le {channel : Nat} (h : 16 ≤ channel) (value : BitVec 16) :
    data.writeAo channel value = data := dif_neg (Nat.not_lt.mpr h)

end ProcessData

/-- Input data from the fieldbus. -/
structure FieldbusInputs where
  digital : BitVec 32
  analog : Vector (BitVec 16) 16
deriving DecidableEq, Repr

/-- Output data to the fieldbus. -/
structure FieldbusOutputs where
  digital : BitVec 32
  analog : Vector (BitVec 16) 16
deriving DecidableEq, Repr

/-- All outputs off. -/
def FieldbusOutputs.zero : FieldbusOutputs := ⟨0, Vector.replicate 16 0⟩

/-- The outputs of process data as the fieldbus takes them. -/
def ProcessData.fieldbusOutputs (data : ProcessData) : FieldbusOutputs :=
  ⟨data.digitalOutputs[0], data.analogOutputs⟩

@[simp] theorem ProcessData.fieldbusOutputs_zero : ProcessData.zero.fieldbusOutputs = .zero := by
  simp [ProcessData.fieldbusOutputs, ProcessData.zero, FieldbusOutputs.zero]

/-- Copies the output fields of `values` and nothing else. -/
def ProcessData.withOutputs (data values : ProcessData) : ProcessData :=
  { data with digitalOutputs := values.digitalOutputs, analogOutputs := values.analogOutputs }

/-- Sets the input fields from the fieldbus. -/
def ProcessData.withInputs (data : ProcessData) (inputs : FieldbusInputs) : ProcessData :=
  { data with
    digitalInputs := data.digitalInputs.set 0 inputs.digital
    analogInputs := inputs.analog }

/-- A double buffer; `frontIdx` tells which half is published. -/
structure SeqlockBuffer where
  buf0 : ProcessData
  buf1 : ProcessData
  frontIdx : Fin 2
deriving DecidableEq, Repr

namespace SeqlockBuffer

def new : SeqlockBuffer := ⟨.zero, .zero, 0⟩

/-- The published half. -/
def read (buffer : SeqlockBuffer) : ProcessData :=
  if buffer.frontIdx = 0 then buffer.buf0 else buffer.buf1

/-- The half a write goes to. -/
def back (buffer : SeqlockBuffer) : ProcessData :=
  if buffer.frontIdx = 0 then buffer.buf1 else buffer.buf0

/-- Applies `f` to the back buffer and swaps. -/
def write (buffer : SeqlockBuffer) (f : ProcessData → ProcessData) : SeqlockBuffer :=
  if buffer.frontIdx = 0 then
    { buffer with buf1 := f buffer.buf1, frontIdx := 1 - buffer.frontIdx }
  else
    { buffer with buf0 := f buffer.buf0, frontIdx := 1 - buffer.frontIdx }

/-- A write shows `f` of the back buffer, not of the image before it. -/
@[simp] theorem read_write (buffer : SeqlockBuffer) (f : ProcessData → ProcessData) :
    (buffer.write f).read = f buffer.back := by
  match buffer with
  | ⟨_, _, 0⟩ => rfl
  | ⟨_, _, 1⟩ => rfl

/-- A write leaves the image before it in the back buffer. -/
@[simp] theorem back_write (buffer : SeqlockBuffer) (f : ProcessData → ProcessData) :
    (buffer.write f).back = buffer.read := by
  match buffer with
  | ⟨_, _, 0⟩ => rfl
  | ⟨_, _, 1⟩ => rfl

end SeqlockBuffer

/-- Input and output buffers. -/
structure IoImage where
  inputs : SeqlockBuffer
  outputs : SeqlockBuffer
deriving DecidableEq, Repr

namespace IoImage

def new : IoImage := ⟨.new, .new⟩

def readInputs (io : IoImage) : ProcessData := io.inputs.read

def readOutputs (io : IoImage) : ProcessData := io.outputs.read

def writeInputs (io : IoImage) (f : ProcessData → ProcessData) : IoImage :=
  { io with inputs := io.inputs.write f }

def writeOutputs (io : IoImage) (f : ProcessData → ProcessData) : IoImage :=
  { io with outputs := io.outputs.write f }

@[simp] theorem inputs_writeOutputs (io : IoImage) (f : ProcessData → ProcessData) :
    (io.writeOutputs f).inputs = io.inputs := rfl

@[simp] theorem readOutputs_writeInputs (io : IoImage) (f : ProcessData → ProcessData) :
    (io.writeInputs f).readOutputs = io.readOutputs := rfl

/-- Whatever the back buffer holds, the fieldbus sees the outputs written last. -/
@[simp] theorem fieldbusOutputs_writeOutputs (io : IoImage) (values : ProcessData) :
    (io.writeOutputs fun data => data.withOutputs values).readOutputs.fieldbusOutputs =
      values.fieldbusOutputs := by
  simp [writeOutputs, readOutputs, ProcessData.withOutputs, ProcessData.fieldbusOutputs]

end IoImage

/-- The image the logic sees of the fieldbus inputs: the output fields of the input buffers stay
zero. -/
def FieldbusInputs.image (inputs : FieldbusInputs) : ProcessData :=
  ProcessData.zero.withInputs inputs

/-- Both input buffers hold images of fieldbus inputs. -/
def IoImage.InputsOnly (io : IoImage) : Prop :=
  (∃ inputs : FieldbusInputs, io.inputs.read = inputs.image) ∧
    ∃ inputs : FieldbusInputs, io.inputs.back = inputs.image

theorem FieldbusInputs.image_withInputs (old new : FieldbusInputs) :
    old.image.withInputs new = new.image := by
  simp [image, ProcessData.withInputs, ProcessData.zero]

theorem IoImage.inputsOnly_new : IoImage.new.InputsOnly :=
  ⟨⟨⟨0, Vector.replicate 16 0⟩, by decide⟩, ⟨⟨0, Vector.replicate 16 0⟩, by decide⟩⟩

/-- The logic reads exactly the inputs written last. -/
theorem IoImage.InputsOnly.readInputs_writeInputs {io : IoImage} (h : io.InputsOnly)
    (inputs : FieldbusInputs) :
    (io.writeInputs fun data => data.withInputs inputs).readInputs = inputs.image := by
  obtain ⟨-, old, hback⟩ := h
  simp [IoImage.writeInputs, IoImage.readInputs, hback, FieldbusInputs.image_withInputs]

theorem IoImage.InputsOnly.writeInputs {io : IoImage} (h : io.InputsOnly)
    (inputs : FieldbusInputs) :
    (io.writeInputs fun data => data.withInputs inputs).InputsOnly := by
  refine ⟨⟨inputs, h.readInputs_writeInputs inputs⟩, ?_⟩
  obtain ⟨⟨front, hfront⟩, -⟩ := h
  exact ⟨front, by simp [IoImage.writeInputs, hfront]⟩

end VirtualPlc.Runtime

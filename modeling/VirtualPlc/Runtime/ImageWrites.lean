import VirtualPlc.Control.Reading
import VirtualPlc.Runtime.IoImage

/-!
# Write closures on the process image

`write_inputs` and `write_outputs` hand a closure the back buffer, which holds the image of two
commits ago. The closures compose exactly as long as each does to that image what it does to the
last one (`writes_compose_iff`). A write of whole images does, and so do the writes of the loop and
the logic (`loopWrites_compose`); one that sets some fields does not after a commit that changed
another (`writeDo_forgets`).
-/

set_option autoImplicit false

namespace VirtualPlc.Runtime

open VirtualPlc.Control

/-- A committed write. -/
inductive ImageWrite where
  | inputs (f : ProcessData → ProcessData)
  | outputs (f : ProcessData → ProcessData)

/-- What the two sides read. -/
structure Images where
  inputs : ProcessData
  outputs : ProcessData
deriving DecidableEq, Repr

/-- A write as its closure says: applied to the image that is read. -/
def Images.apply (images : Images) : ImageWrite → Images
  | .inputs f => { images with inputs := f images.inputs }
  | .outputs f => { images with outputs := f images.outputs }

namespace IoImage

/-- `write_inputs` or `write_outputs`. -/
def apply (io : IoImage) : ImageWrite → IoImage
  | .inputs f => io.writeInputs f
  | .outputs f => io.writeOutputs f

/-- The images that `read_inputs` and `read_outputs` return. -/
def images (io : IoImage) : Images := ⟨io.readInputs, io.readOutputs⟩

/-- The closure does to the back buffer what it does to the image that is read. -/
def SameOnBack (io : IoImage) : ImageWrite → Prop
  | .inputs f => f io.inputs.back = f io.inputs.read
  | .outputs f => f io.outputs.back = f io.outputs.read

theorem images_apply_iff (io : IoImage) (w : ImageWrite) :
    (io.apply w).images = io.images.apply w ↔ io.SameOnBack w := by
  cases w with
  | inputs f =>
    simp [apply, images, Images.apply, SameOnBack, writeInputs, readInputs, readOutputs]
  | outputs f =>
    simp [apply, images, Images.apply, SameOnBack, writeOutputs, readInputs, readOutputs]

/-- A run of writes gives what the closures say as long as each meets a back buffer that suits it.
-/
theorem follows_iff_passes (io : IoImage) (writes : List ImageWrite) :
    Follows apply images Images.apply io writes ↔ Passes apply SameOnBack io writes := by
  simp only [follows_iff, Passes, images_apply_iff]

/-- Both buffers of the outputs have the input fields that they were created with. -/
def OutputsOnly (io : IoImage) : Prop :=
  ∀ data, data = io.outputs.read ∨ data = io.outputs.back →
    data.digitalInputs = ProcessData.zero.digitalInputs ∧
      data.analogInputs = ProcessData.zero.analogInputs

theorem outputsOnly_new : OutputsOnly new := by
  rintro data (rfl | rfl) <;> exact ⟨rfl, rfl⟩

theorem OutputsOnly.writeOutputs {io : IoImage} (h : io.OutputsOnly) (values : ProcessData) :
    (io.writeOutputs fun data => data.withOutputs values).OutputsOnly := by
  rintro data (rfl | rfl)
  · rw [IoImage.writeOutputs, SeqlockBuffer.read_write]
    exact h io.outputs.back (.inr rfl)
  · rw [IoImage.writeOutputs, SeqlockBuffer.back_write]
    exact h _ (.inl rfl)

theorem OutputsOnly.withOutputs_eq {io : IoImage} (h : io.OutputsOnly) (values : ProcessData) :
    io.outputs.back.withOutputs values = io.outputs.read.withOutputs values := by
  obtain ⟨hback, hback'⟩ := h _ (.inr rfl)
  obtain ⟨hread, hread'⟩ := h _ (.inl rfl)
  simp [ProcessData.withOutputs, hback, hback', hread, hread']

theorem InputsOnly.withInputs_eq {io : IoImage} (h : io.InputsOnly) (inputs : FieldbusInputs) :
    io.inputs.back.withInputs inputs = io.inputs.read.withInputs inputs := by
  obtain ⟨⟨front, hfront⟩, ⟨back, hback⟩⟩ := h
  rw [hfront, hback, FieldbusInputs.image_withInputs, FieldbusInputs.image_withInputs]

end IoImage

/-- After every commit both sides read what the closures so far give in order on the initial images,
exactly as long as each closure does the same to the back buffer as to the image that is read. -/
theorem writes_compose_iff (writes : List ImageWrite) :
    Follows IoImage.apply IoImage.images Images.apply .new writes ↔
      Passes IoImage.apply IoImage.SameOnBack .new writes :=
  IoImage.follows_iff_passes .new writes

/-- Two writes of single output bits: the second shows an image without the first. -/
theorem writes_do_not_compose :
    ¬ Follows IoImage.apply IoImage.images Images.apply .new
      [.outputs fun data => data.writeDo 0 true, .outputs fun data => data.writeDo 1 true] := by
  intro h
  have hlast := congrArg (fun images => images.outputs.fieldbusOutputs.digital)
    (h _ [] (List.append_nil _).symm)
  revert hlast
  decide

/-- The writes of the loop and the logic: all input fields, or all output fields. -/
inductive LoopWrite : ImageWrite → Prop where
  | inputs (inputs : FieldbusInputs) : LoopWrite (.inputs fun data => data.withInputs inputs)
  | outputs (values : ProcessData) : LoopWrite (.outputs fun data => data.withOutputs values)

/-- Nothing the loop and the logic write is lost. -/
theorem loopWrites_compose {writes : List ImageWrite} (h : ∀ w ∈ writes, LoopWrite w) :
    Follows IoImage.apply IoImage.images Images.apply .new writes := by
  rw [IoImage.follows_iff_passes]
  have hnew : IoImage.new.InputsOnly ∧ IoImage.new.OutputsOnly :=
    ⟨IoImage.inputsOnly_new, IoImage.outputsOnly_new⟩
  generalize IoImage.new = io at hnew
  -- each write keeps the fields of the other direction in both buffers
  induction writes generalizing io with
  | nil => exact passes_nil
  | cons w writes ih =>
    obtain ⟨hin, hout⟩ := hnew
    have hrest : ∀ w ∈ writes, LoopWrite w := fun w hw => h w (List.mem_cons_of_mem _ hw)
    rw [passes_cons]
    cases h w List.mem_cons_self with
    | inputs inputs =>
      exact ⟨hin.withInputs_eq inputs, ih hrest _ ⟨hin.writeInputs inputs, hout⟩⟩
    | outputs values =>
      exact ⟨hout.withOutputs_eq values, ih hrest _ ⟨hin, hout.writeOutputs values⟩⟩

/-- A bit that one write sets is off again after the write of another bit, unless it was on two
commits ago. -/
theorem writeDo_forgets {buffer : SeqlockBuffer} {bit other : Nat} (hne : other ≠ bit)
    (hother : other < 32)
    (hoff : (getElem buffer.read.digitalOutputs 0 Nat.zero_lt_one).getLsbD bit = false) :
    (getElem (((buffer.write fun data => data.writeDo bit true).write
      fun data => data.writeDo other true).read.digitalOutputs) 0 Nat.zero_lt_one).getLsbD bit =
        false := by
  rw [SeqlockBuffer.read_write, SeqlockBuffer.back_write,
    ProcessData.getLsbD_writeDo_of_ne hother hne]
  exact hoff

end VirtualPlc.Runtime

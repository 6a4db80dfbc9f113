import VirtualPlc.Fieldbus.Ethercat
import VirtualPlc.Word.Fields

/-!
# The I/O image of the EtherCAT master

The outputs are encoded as a digital word and the analog channels after it, as far as the image
reaches, and inputs are decoded from the same places. Both sides are the fields of a memory
(`WritesFields`, `readInputU16_eq`), which gives what an image of any length carries
(`ProcessImage.image_codec`).
-/

set_option autoImplicit false

namespace VirtualPlc.Fieldbus

open VirtualPlc.Runtime VirtualPlc.Word

/-- Byte `i` of `to_le_bytes()`. -/
def leByte (v i : Nat) : BitVec 8 := BitVec.ofNat 8 (v / 256 ^ i)

/-- The number of `from_le_bytes`. -/
def leValue : List (BitVec 8) → Nat
  | [] => 0
  | byte :: rest => byte.toNat + 256 * leValue rest

/-- `xs[i] = x`. -/
def setAt {α : Type} (xs : List α) (i : Nat) (x : α) : Except Failure (List α) :=
  if i < xs.length then .ok (xs.set i x) else .error (.panic "index out of bounds")

/-- `xs[lo..hi].copy_from_slice(source)`. -/
def copyFromSlice {α : Type} (xs : List α) (lo hi : Nat) (source : List α) :
    Except Failure (List α) :=
  if lo ≤ hi ∧ hi ≤ xs.length then
    if source.length = hi - lo then .ok (xs.take lo ++ source ++ xs.drop hi)
    else .error (.panic "source slice length does not match destination slice length")
  else .error (.panic "range out of bounds")

namespace ProcessImage

/-- Reads a `u16` from the inputs. -/
def readInputU16 (image : ProcessImage) (offset : Nat) : Except Failure (Option (BitVec 16)) :=
  if offset + 2 ≤ image.inputs.length then do
    let first ← index image.inputs offset
    let second ← index image.inputs (offset + 1)
    return some (BitVec.ofNat 16 (leValue [first, second]))
  else .ok none

/-- Reads a `u32` from the inputs. -/
def readInputU32 (image : ProcessImage) (offset : Nat) : Except Failure (Option (BitVec 32)) :=
  if offset + 4 ≤ image.inputs.length then do
    let bytes ← slice image.inputs offset (offset + 4)
    return some (BitVec.ofNat 32 (leValue bytes))
  else .ok none

/-- Writes a `u16` to the outputs. -/
def writeOutputU16 (image : ProcessImage) (offset : Nat) (value : BitVec 16) :
    Except Failure ProcessImage :=
  if offset + 2 ≤ image.outputs.length then do
    let outputs ← setAt image.outputs offset (leByte value.toNat 0)
    let outputs ← setAt outputs (offset + 1) (leByte value.toNat 1)
    return { image with outputs := outputs }
  else .ok image

/-- Writes a `u32` to the outputs. -/
def writeOutputU32 (image : ProcessImage) (offset : Nat) (value : BitVec 32) :
    Except Failure ProcessImage :=
  if offset + 4 ≤ image.outputs.length then do
    let bytes := (List.range 4).map (leByte value.toNat)
    let outputs ← copyFromSlice image.outputs offset (offset + 4) bytes
    return { image with outputs := outputs }
  else .ok image

/-- Decodes the inputs. What the image does not reach stays at its default. -/
def getInputs (image : ProcessImage) : Except Failure FieldbusInputs := do
  let digital ← image.readInputU32 0
  let analog ← (Vector.finRange 16).mapM fun i => do
    let value ← image.readInputU16 (4 + i.val * 2)
    return value.getD 0
  return ⟨digital.getD 0, analog⟩

/-- Encodes one analog channel. -/
def setAnalog (outputs : FieldbusOutputs) (image : ProcessImage) (i : Fin 16) :
    Except Failure ProcessImage :=
  image.writeOutputU16 (4 + i.val * 2) (outputs.analog.get i)

/-- Encodes the outputs. -/
def setOutputs (image : ProcessImage) (outputs : FieldbusOutputs) :
    Except Failure ProcessImage := do
  let image ← image.writeOutputU32 0 outputs.digital
  (List.finRange 16).foldlM (setAnalog outputs) image

end ProcessImage

/-! ## Reading -/

theorem leValue_eq_value {bytes : List (BitVec 8)} {m : Memory} {a : Nat}
    (h : ∀ (i : Nat) (hi : i < bytes.length), m.byte (a + i) = bytes[i]) :
    leValue bytes = m.value a bytes.length := by
  induction bytes generalizing a with
  | nil => rfl
  | cons byte rest ih =>
    have hfirst : m.byte a = byte := h 0 (Nat.zero_lt_succ _)
    have hrest : leValue rest = m.value (a + 1) rest.length := by
      apply ih
      intro i hi
      have hnext := h (i + 1) (Nat.succ_lt_succ hi)
      rw [List.getElem_cons_succ] at hnext
      rw [← hnext]
      congr 1
      omega
    rw [leValue, List.length_cons, Memory.value, hfirst, hrest]

theorem byte_ofBytes_of_lt {bytes : List (BitVec 8)} {i : Nat} (h : i < bytes.length) :
    (Memory.ofBytes bytes).byte i = bytes[i] := by
  rw [Memory.byte_ofBytes, List.getD_eq_getElem _ _ h]

namespace ProcessImage

variable {image image' : ProcessImage} {offset : Nat}

/-- A guarded read is a read of a memory. -/
theorem readInputU16_eq (image : ProcessImage) (offset : Nat) :
    image.readInputU16 offset =
      .ok (((Memory.ofBytes image.inputs).read offset 2).map (BitVec.ofNat 16)) := by
  rw [readInputU16]
  by_cases h : offset + 2 ≤ image.inputs.length
  · have hfirst : offset < image.inputs.length := by omega
    have hsecond : offset + 1 < image.inputs.length := by omega
    have hvalue : leValue [image.inputs[offset], image.inputs[offset + 1]] =
        (Memory.ofBytes image.inputs).value offset 2 := by
      simp only [leValue, Memory.value, byte_ofBytes_of_lt hfirst, byte_ofBytes_of_lt hsecond]
    rw [if_pos h, index_eq hfirst, index_eq hsecond, Memory.read_eq h, ← hvalue]
    rfl
  · rw [if_neg h, Memory.read_eq_none (Nat.not_le.mp h)]
    rfl

theorem readInputU32_eq (image : ProcessImage) (offset : Nat) :
    image.readInputU32 offset =
      .ok (((Memory.ofBytes image.inputs).read offset 4).map (BitVec.ofNat 32)) := by
  rw [readInputU32]
  by_cases h : offset + 4 ≤ image.inputs.length
  · have hlength : ((image.inputs.take (offset + 4)).drop offset).length = 4 := by
      rw [List.length_drop, List.length_take]
      omega
    have hvalue : leValue ((image.inputs.take (offset + 4)).drop offset) =
        (Memory.ofBytes image.inputs).value offset 4 := by
      conv_rhs => rw [← hlength]
      apply leValue_eq_value
      intro i hi
      rw [hlength] at hi
      rw [byte_ofBytes_of_lt (by omega), List.getElem_drop, List.getElem_take]
    rw [if_pos h, slice_eq ⟨by omega, h⟩, Memory.read_eq h, ← hvalue]
    rfl
  · rw [if_neg h, Memory.read_eq_none (Nat.not_le.mp h)]
    rfl

theorem map_finRange {α : Type} {n : Nat} (f : Fin n → α) :
    (Vector.finRange n).map f = Vector.ofFn f := by
  ext i hi
  simp [Vector.finRange]

/-- Decoding reads a memory in 17 places. -/
theorem getInputs_eq (image : ProcessImage) :
    image.getInputs = .ok
      { digital := (((Memory.ofBytes image.inputs).read 0 4).map (BitVec.ofNat 32)).getD 0
        analog := Vector.ofFn fun i =>
          (((Memory.ofBytes image.inputs).read (4 + i.val * 2) 2).map
            (BitVec.ofNat 16)).getD 0 } := by
  have hchannel : (fun i : Fin 16 => do
      let value ← image.readInputU16 (4 + i.val * 2)
      return value.getD 0) = fun i : Fin 16 => (pure
        ((((Memory.ofBytes image.inputs).read (4 + i.val * 2) 2).map (BitVec.ofNat 16)).getD 0) :
          Except Failure (BitVec 16)) := by
    funext i
    rw [readInputU16_eq]
    rfl
  rw [getInputs, readInputU32_eq, hchannel, Vector.mapM_pure, map_finRange]
  rfl

/-! ## Writing -/

theorem ofBytes_eq_set {bytes bytes' : List (BitVec 8)} {n v : Nat}
    (hlength : bytes'.length = bytes.length)
    (h : ∀ i, bytes'[i]? =
      if offset ≤ i ∧ i < offset + n then some (leByte v (i - offset)) else bytes[i]?) :
    Memory.ofBytes bytes' = (Memory.ofBytes bytes).set offset n v := by
  have hbyte : (Memory.ofBytes bytes').byte = ((Memory.ofBytes bytes).set offset n v).byte := by
    funext i
    rw [Memory.byte_set, Memory.byte_ofBytes, Memory.byte_ofBytes, List.getD_eq_getElem?_getD, h,
      List.getD_eq_getElem?_getD]
    split <;> rfl
  rw [Memory.ofBytes, hlength]
  exact congrArg (Memory.mk bytes.length) hbyte

/-- A list with a part of it replaced. -/
theorem getElem?_splice {α : Type} {xs ys : List α} {hi : Nat} (hlo : offset ≤ xs.length)
    (hhi : offset + ys.length = hi) (i : Nat) :
    (xs.take offset ++ ys ++ xs.drop hi)[i]? =
      if offset ≤ i ∧ i < hi then ys[i - offset]? else xs[i]? := by
  have htake : (xs.take offset).length = offset := by
    rw [List.length_take]
    omega
  rw [List.append_assoc]
  by_cases hbefore : i < offset
  · rw [List.getElem?_append_left (by omega), List.getElem?_take, if_pos hbefore,
      if_neg (by omega)]
  · rw [List.getElem?_append_right (by omega), htake]
    by_cases hinside : i < hi
    · rw [List.getElem?_append_left (by omega), if_pos (by omega)]
    · rw [List.getElem?_append_right (by omega), List.getElem?_drop, if_neg (by omega)]
      congr 1
      omega

/-- The outputs are those before with the fields written that fit; all else is unchanged. -/
structure WritesFields (image image' : ProcessImage) (fields : List Field) : Prop where
  frame : image' = { image with outputs := image'.outputs }
  outputs : Memory.ofBytes image'.outputs = (Memory.ofBytes image.outputs).storeAll fields

theorem WritesFields.append {image'' : ProcessImage} {fields fields' : List Field}
    (h : WritesFields image image' fields) (h' : WritesFields image' image'' fields') :
    WritesFields image image'' (fields ++ fields') := by
  constructor
  · rw [h'.frame, h.frame]
  · rw [h'.outputs, h.outputs, Memory.storeAll, Memory.storeAll, Memory.storeAll,
      List.foldl_append]

theorem writesFields_of_not_fits {f : Field} (h : image.outputs.length < f.span.stop) :
    WritesFields image image [f] :=
  ⟨rfl, (Memory.store_of_not_fits h).symm⟩

theorem writesFields_of_fits {f : Field} {outputs : List (BitVec 8)}
    (h : f.span.stop ≤ image.outputs.length)
    (hset : Memory.ofBytes outputs =
      (Memory.ofBytes image.outputs).set f.span.offset f.span.size f.value) :
    WritesFields image { image with outputs := outputs } [f] :=
  ⟨rfl, hset.trans (Memory.store_of_fits h).symm⟩

/-- A guarded write of a word writes its field, and never accesses a byte out of range. -/
theorem writeOutputU16_writes (image : ProcessImage) (offset : Nat) (value : BitVec 16) :
    ∃ image', image.writeOutputU16 offset value = .ok image' ∧
      WritesFields image image' [⟨⟨offset, 2⟩, value.toNat⟩] := by
  rw [writeOutputU16]
  by_cases h : offset + 2 ≤ image.outputs.length
  · have hfirst : setAt image.outputs offset (leByte value.toNat 0) =
        .ok (image.outputs.set offset (leByte value.toNat 0)) := if_pos (by omega)
    have hsecond : setAt (image.outputs.set offset (leByte value.toNat 0)) (offset + 1)
          (leByte value.toNat 1) =
        .ok ((image.outputs.set offset (leByte value.toNat 0)).set (offset + 1)
          (leByte value.toNat 1)) := if_pos (by rw [List.length_set]; omega)
    rw [if_pos h]
    refine ⟨_, bind_eq_ok.mpr ⟨_, hfirst, bind_eq_ok.mpr ⟨_, hsecond, rfl⟩⟩,
      writesFields_of_fits h (ofBytes_eq_set (by simp) fun i => ?_)⟩
    change _ = if offset ≤ i ∧ i < offset + 2 then _ else _
    simp only [List.getElem?_set, List.length_set]
    -- the second byte, the first one, or one elsewhere
    by_cases hnext : offset + 1 = i
    · subst hnext
      rw [if_pos rfl, if_pos (by omega), if_pos (by omega), Nat.add_sub_cancel_left]
    · rw [if_neg hnext]
      by_cases hsame : offset = i
      · subst hsame
        rw [if_pos rfl, if_pos (by omega), if_pos (by omega), Nat.sub_self]
      · rw [if_neg hsame, if_neg (by omega)]
  · exact ⟨image, if_neg h, writesFields_of_not_fits (Nat.not_le.mp h)⟩

theorem writeOutputU32_writes (image : ProcessImage) (offset : Nat) (value : BitVec 32) :
    ∃ image', image.writeOutputU32 offset value = .ok image' ∧
      WritesFields image image' [⟨⟨offset, 4⟩, value.toNat⟩] := by
  rw [writeOutputU32]
  by_cases h : offset + 4 ≤ image.outputs.length
  · have hlength : ((List.range 4).map (leByte value.toNat)).length = offset + 4 - offset := by
      rw [List.length_map, List.length_range]
      omega
    have hcopy : copyFromSlice image.outputs offset (offset + 4)
          ((List.range 4).map (leByte value.toNat)) =
        .ok (image.outputs.take offset ++ (List.range 4).map (leByte value.toNat) ++
          image.outputs.drop (offset + 4)) := by
      rw [copyFromSlice, if_pos ⟨by omega, h⟩, if_pos hlength]
    rw [if_pos h]
    refine ⟨_, bind_eq_ok.mpr ⟨_, hcopy, rfl⟩,
      writesFields_of_fits h (ofBytes_eq_set ?_ fun i => ?_)⟩
    · simp
      omega
    · change _ = if offset ≤ i ∧ i < offset + 4 then _ else _
      rw [getElem?_splice (by omega) (by simp)]
      split
      · next hinside =>
        rw [List.getElem?_map, List.getElem?_range (by omega)]
        rfl
      · rfl
  · exact ⟨image, if_neg h, writesFields_of_not_fits (Nat.not_le.mp h)⟩

/-! ## The image -/

/-- The field of an analog channel. -/
def analogField (outputs : FieldbusOutputs) (i : Fin 16) : Field :=
  ⟨⟨4 + i.val * 2, 2⟩, (outputs.analog.get i).toNat⟩

/-- The digital word and the analog channels after it. -/
def fields (outputs : FieldbusOutputs) : List Field :=
  ⟨⟨0, 4⟩, outputs.digital.toNat⟩ :: (List.finRange 16).map (analogField outputs)

theorem fields_disjoint (outputs : FieldbusOutputs) :
    (fields outputs).Pairwise fun f g => f.span.Disjoint g.span := by
  apply List.pairwise_cons.mpr
  constructor
  · intro g hg
    obtain ⟨i, -, rfl⟩ := List.mem_map.mp hg
    exact Span.disjoint_of_le (Nat.le_add_right 4 _)
  · rw [List.pairwise_map]
    apply List.Pairwise.imp _ (List.pairwise_lt_finRange 16)
    intro i j hlt
    apply Span.disjoint_of_le
    change 4 + i.val * 2 + 2 ≤ 4 + j.val * 2
    have hval : i.val < j.val := hlt
    omega

/-- Encoding some channels writes their fields. -/
theorem setAnalogs_writes (outputs : FieldbusOutputs) (channels : List (Fin 16))
    (image : ProcessImage) :
    ∃ image', channels.foldlM (setAnalog outputs) image = .ok image' ∧
      WritesFields image image' (channels.map (analogField outputs)) := by
  induction channels generalizing image with
  | nil => exact ⟨image, rfl, rfl, rfl⟩
  | cons i rest ih =>
    obtain ⟨image₁, hfirst, hwrites⟩ :=
      writeOutputU16_writes image (4 + i.val * 2) (outputs.analog.get i)
    obtain ⟨image', hrest, hwrites'⟩ := ih image₁
    refine ⟨image', ?_, hwrites.append hwrites'⟩
    rw [List.foldlM_cons]
    exact bind_eq_ok.mpr ⟨image₁, hfirst, hrest⟩

theorem setOutputs_writes (image : ProcessImage) (outputs : FieldbusOutputs) :
    ∃ image', image.setOutputs outputs = .ok image' ∧
      WritesFields image image' (fields outputs) := by
  obtain ⟨image₁, hfirst, hwrites⟩ := writeOutputU32_writes image 0 outputs.digital
  obtain ⟨image', hrest, hwrites'⟩ := setAnalogs_writes outputs (List.finRange 16) image₁
  exact ⟨image', bind_eq_ok.mpr ⟨image₁, hfirst, hrest⟩, hwrites.append hwrites'⟩

/-- A byte belongs to a field that an image of `n` bytes has room for. -/
def Encoded (n j : Nat) : Prop :=
  (4 ≤ n ∧ j < 4) ∨ ∃ i, i < 16 ∧ 6 + 2 * i ≤ n ∧ 4 + 2 * i ≤ j ∧ j < 6 + 2 * i

theorem not_contains_of_not_encoded {outputs : FieldbusOutputs} {n j : Nat} (h : ¬ Encoded n j) :
    ∀ f ∈ fields outputs, f.span.stop ≤ n → ¬ f.span.Contains j := by
  intro f hf hfits hcontains
  apply h
  rcases List.mem_cons.mp hf with rfl | hchannel
  · exact .inl ⟨hfits, hcontains.2⟩
  · obtain ⟨i, -, rfl⟩ := List.mem_map.mp hchannel
    have hstop : 4 + i.val * 2 + 2 ≤ n := hfits
    have hstart : 4 + i.val * 2 ≤ j := hcontains.1
    have hend : j < 4 + i.val * 2 + 2 := hcontains.2
    exact .inr ⟨i.val, i.isLt, by omega, by omega, by omega⟩

theorem WritesFields.length_eq {fields : List Field} (h : WritesFields image image' fields) :
    image'.outputs.length = image.outputs.length := by
  have hsize := congrArg Memory.size h.outputs
  rwa [Memory.size_storeAll] at hsize

/-- A byte outside the fields is the one before. -/
theorem WritesFields.unchanged {outputs : FieldbusOutputs} {j : Nat}
    (h : WritesFields image image' (fields outputs)) (hj : ¬ Encoded image.outputs.length j) :
    image'.outputs[j]? = image.outputs[j]? := by
  have hlength := h.length_eq
  rcases Nat.lt_or_ge j image.outputs.length with hlt | hge
  · have hbyte :
        (Memory.ofBytes image'.outputs).byte j = (Memory.ofBytes image.outputs).byte j := by
      rw [h.outputs]
      exact Memory.byte_storeAll_of_outside (not_contains_of_not_encoded hj)
    rw [byte_ofBytes_of_lt hlt, byte_ofBytes_of_lt (by omega)] at hbyte
    rw [List.getElem?_eq_getElem hlt, List.getElem?_eq_getElem (by omega), hbyte]
  · rw [List.getElem?_eq_none hge, List.getElem?_eq_none (by omega)]

/-- A word of the width of its field is decoded as it was encoded, or is zero where the field does
not fit. -/
theorem WritesFields.decoded {outputs : FieldbusOutputs} {w size : Nat} {x : BitVec w}
    (h : WritesFields image image' (fields outputs)) (hw : w = 8 * size)
    (hmem : ⟨⟨offset, size⟩, x.toNat⟩ ∈ fields outputs) :
    (((Memory.ofBytes image'.outputs).read offset size).map (BitVec.ofNat w)).getD 0 =
      if offset + size ≤ image.outputs.length then x else 0 := by
  have hread : (Memory.ofBytes image'.outputs).read offset size =
      if offset + size ≤ image.outputs.length then some (x.toNat % 256 ^ size) else none := by
    rw [h.outputs]
    exact Memory.read_storeAll (fields_disjoint outputs) hmem
  have hpow : 256 ^ size = 2 ^ w := by
    rw [hw, Nat.pow_mul]
  rw [hread]
  split
  · rw [hpow, Nat.mod_eq_of_lt x.isLt, Option.map_some, Option.getD_some, BitVec.ofNat_toNat]
    exact BitVec.setWidth_eq x
  · rfl

/-- Encoding into any image returns, keeps its size and all else, and changes no byte outside the
fields it has room for; decoding any image returns. From zeroed images of any one size the digital
word is decoded if its four bytes fit and an analog channel if its two bytes do, and else zero. -/
theorem image_codec :
    (∀ (image : ProcessImage) (outputs : FieldbusOutputs), ∃ image',
      image.setOutputs outputs = .ok image' ∧
        image' = { image with outputs := image'.outputs } ∧
        image'.outputs.length = image.outputs.length ∧
        ∀ j, ¬ Encoded image.outputs.length j → image'.outputs[j]? = image.outputs[j]?) ∧
    (∀ image : ProcessImage, ∃ inputs, image.getInputs = .ok inputs) ∧
    (∀ (n : Nat) (outputs : FieldbusOutputs), ∃ image',
      (ProcessImage.new n n).setOutputs outputs = .ok image' ∧
        ProcessImage.getInputs { image' with inputs := image'.outputs } = .ok
          { digital := if 4 ≤ n then outputs.digital else 0
            analog := Vector.ofFn fun i =>
              if 6 + 2 * i.val ≤ n then outputs.analog.get i else 0 }) := by
  refine ⟨fun image outputs => ?_, fun image => ⟨_, getInputs_eq image⟩, fun n outputs => ?_⟩
  · obtain ⟨image', hok, hwrites⟩ := setOutputs_writes image outputs
    exact ⟨image', hok, hwrites.frame, hwrites.length_eq, fun j hj => hwrites.unchanged hj⟩
  · obtain ⟨image', hok, hwrites⟩ := setOutputs_writes (ProcessImage.new n n) outputs
    have hlength : (ProcessImage.new n n).outputs.length = n := List.length_replicate
    refine ⟨image', hok, ?_⟩
    rw [getInputs_eq]
    have hdigital := hwrites.decoded (x := outputs.digital) rfl List.mem_cons_self
    have hanalog : ∀ i : Fin 16,
        (((Memory.ofBytes image'.outputs).read (4 + i.val * 2) 2).map (BitVec.ofNat 16)).getD 0 =
          if 6 + 2 * i.val ≤ n then outputs.analog.get i else 0 := by
      intro i
      have hmem : analogField outputs i ∈ fields outputs :=
        List.mem_cons_of_mem _ (List.mem_map_of_mem (List.mem_finRange i))
      have hchannel := hwrites.decoded (x := outputs.analog.get i) rfl hmem
      rw [hlength, show 4 + i.val * 2 + 2 = 6 + 2 * i.val by omega] at hchannel
      exact hchannel
    rw [hlength] at hdigital
    simp only [hanalog]
    rw [hdigital]

end ProcessImage

end VirtualPlc.Fieldbus

import VirtualPlc.Fieldbus.Decoding
import VirtualPlc.Word.Bits

/-!
# Packing and unpacking

The bytes of coils and of registers, and that each decoder of the driver undoes the matching
encoder, for every number of values.
-/

set_option autoImplicit false

namespace VirtualPlc.Fieldbus

open VirtualPlc.Runtime VirtualPlc.Word ModbusTcpDriver

theorem wordsPdu_eq (function : FunctionCode) (first second : BitVec 16) :
    wordsPdu function first second = [function.code] ++ toBeBytes first ++ toBeBytes second := by
  have hhigh : ∀ x : BitVec 16, (x >>> 8).setWidth 8 = x.extractLsb' 8 8 := by
    intro x
    ext i hi
    simp
  have hlow : ∀ x : BitVec 16, (x &&& 0xFF).setWidth 8 = x.extractLsb' 0 8 := by
    intro x
    apply BitVec.eq_of_toNat_eq
    rw [BitVec.toNat_setWidth, BitVec.toNat_and, BitVec.extractLsb'_toNat]
    have hmask : (0xFF : BitVec 16).toNat = 2 ^ 8 - 1 := rfl
    rw [hmask, Nat.and_two_pow_sub_one_eq_mod, Nat.mod_mod, Nat.shiftRight_zero]
  simp only [wordsPdu, toBeBytes, hhigh, hlow, List.cons_append, List.nil_append]

@[simp] theorem length_toBeBytes (x : BitVec 16) : (toBeBytes x).length = 2 := rfl

/-- One round of `packCoils`. -/
def setCoil (data : List Byte) (coil : Bool × Nat) : List Byte :=
  if coil.1 then data.modify (coil.2 / 8) (· ||| BitVec.ofNat 8 (1 <<< (coil.2 % 8))) else data

/-- One round of `packBits`. -/
def setInput (digital : BitVec 32) (input : Bool × Nat) : BitVec 32 :=
  if input.1 then digital ||| BitVec.ofNat 32 (1 <<< input.2) else digital

theorem packCoils_eq (values : List Bool) :
    packCoils values =
      values.zipIdx.foldl setCoil (List.replicate ((values.length + 7) / 8) 0) := rfl

theorem packBits_eq (bits : List Bool) :
    packBits bits = (bits.take 32).zipIdx.foldl setInput 0 := rfl

theorem length_setCoil (data : List Byte) (coil : Bool × Nat) :
    (setCoil data coil).length = data.length := by
  unfold setCoil
  split
  · rw [List.length_modify]
  · rfl

@[simp] theorem length_packCoils (values : List Bool) :
    (packCoils values).length = (values.length + 7) / 8 := by
  have hkept : ∀ (coils : List (Bool × Nat)) (data : List Byte),
      (coils.foldl setCoil data).length = data.length := by
    intro coils
    induction coils with
    | nil => exact fun _ => rfl
    | cons coil coils ih => exact fun data => (ih _).trans (length_setCoil data coil)
  rw [packCoils_eq, hkept, List.length_replicate]

/-- Coil `i` is bit `i % 8` of byte `i / 8`. -/
theorem setsBits_setCoil (n : Nat) :
    SetsBits setCoil (fun data j => (data[j / 8]?.getD 0).getLsbD (j % 8))
      (fun data => data.length = (n + 7) / 8) n where
  stays := fun data coil i hlen _ => (length_setCoil data _).trans hlen
  sets := by
    intro data coil i j hlen hi
    cases coil with
    | false => simp [setCoil]
    | true =>
      simp only [setCoil, if_true, List.getElem?_modify, Bool.true_and]
      by_cases hbyte : i / 8 = j / 8
      · have hin : j / 8 < data.length := by omega
        rw [List.getElem?_eq_getElem hin]
        have hbit : decide (j % 8 = i % 8) = decide (j = i) := by
          rw [decide_eq_decide]
          omega
        simp only [hbyte, if_true, Option.map_eq_map, Option.map_some, Option.getD_some,
          BitVec.getLsbD_or, getLsbD_mask, hbit, Nat.mod_lt j (show 8 > 0 by decide), decide_true,
          Bool.true_and]
      · have hne : j ≠ i := fun heq => hbyte (by rw [heq])
        simp [hbyte, hne]

theorem setsBits_setInput : SetsBits setInput BitVec.getLsbD (fun _ => True) 32 where
  stays := fun _ _ _ _ _ => trivial
  sets := by
    intro digital input i j _ hi
    cases input with
    | false => simp [setInput]
    | true =>
      simp only [setInput, if_true, BitVec.getLsbD_or, getLsbD_mask, Bool.true_and]
      by_cases heq : j = i
      · subst heq
        simp [hi]
      · simp [heq]

/-- Bit `i` of packed coils is coil `i`. -/
theorem packCoils_bit (values : List Bool) (i : Nat) :
    decide ((((packCoils values)[i / 8]?.getD 0) >>> (i % 8)) &&& 1 ≠ 0) =
      values[i]?.getD false := by
  have hread := (setsBits_setCoil values.length).read_foldl values
    (List.length_replicate (a := (0 : Byte)) (n := (values.length + 7) / 8)) (Nat.zero_add _).le i
  have hzero : ((List.replicate ((values.length + 7) / 8) (0 : Byte))[i / 8]?.getD 0).getLsbD
      (i % 8) = false := by
    rw [List.getElem?_replicate]
    split <;> simp
  rw [decide_shift_and_one, packCoils_eq]
  refine hread.trans ?_
  rw [hzero]
  simp

/-- Packed inputs hold the first 32 bits. -/
theorem getLsbD_packBits (bits : List Bool) (i : Nat) :
    (packBits bits).getLsbD i = (bits.take 32)[i]?.getD false := by
  have hlen : 0 + (bits.take 32).length ≤ 32 := by
    rw [List.length_take]
    omega
  have hread := setsBits_setInput.read_foldl (bits.take 32) (s := 0) trivial hlen i
  rw [packBits_eq]
  refine hread.trans ?_
  simp

/-- Register `i` of a sequence of registers in network order. -/
theorem fromBeBytes_flatMap (values : List (BitVec 16)) {i : Nat} (h : i < values.length) :
    fromBeBytes ((values.flatMap toBeBytes)[i * 2]?.getD 0)
      ((values.flatMap toBeBytes)[i * 2 + 1]?.getD 0) = values[i] := by
  induction values generalizing i with
  | nil => cases h
  | cons value values ih =>
    cases i with
    | zero => exact fromBeBytes_toBeBytes value
    | succ i =>
      have hrest := ih (Nat.lt_of_succ_lt_succ h)
      rw [List.flatMap_cons, Nat.succ_mul]
      exact hrest

@[simp] theorem length_flatMap_toBeBytes (values : List (BitVec 16)) :
    (values.flatMap toBeBytes).length = values.length * 2 := by
  induction values with
  | nil => rfl
  | cons value values ih =>
    rw [List.flatMap_cons, List.length_append, ih, length_toBeBytes, List.length_cons]
    omega

/-- The registers that were received replace the first channels. -/
theorem getElem_storeRegisters (analog : Vector (BitVec 16) 16) (registers : List (BitVec 16))
    {i : Nat} (hi : i < 16) :
    (storeRegisters analog registers)[i] = registers[i]?.getD analog[i] := by
  have hloop : storeRegisters analog registers = ((registers.take 16).zipIdx 0).foldl
      (fun analog place => analog.setIfInBounds place.2 place.1) analog := rfl
  rw [hloop, getElem_foldl_zipIdx _ _ _ hi, if_pos (Nat.zero_le i), Nat.sub_zero,
    List.getElem?_take_of_lt hi]

/-! ## Responses -/

section Responses

variable {address quantity : BitVec 16}

/-- The decoder takes packed bits apart. -/
theorem bitsOf_packCoils (function : FunctionCode) {bits : List Bool}
    (hlen : bits.length = quantity.toNat) (hle : quantity.toNat ≤ 256) :
    bitsOf function quantity
      ([function.code, BitVec.ofNat 8 ((quantity.toNat + 7) / 8)] ++ packCoils bits) =
        some bits := by
  have hcount : (BitVec.ofNat 8 ((quantity.toNat + 7) / 8)).toNat = (quantity.toNat + 7) / 8 := by
    rw [BitVec.toNat_ofNat, Nat.mod_eq_of_lt (by omega)]
  have hchecks : function.code = function.code ∧
      (quantity.toNat + 7) / 8 ≤ (BitVec.ofNat 8 ((quantity.toNat + 7) / 8)).toNat ∧
      (BitVec.ofNat 8 ((quantity.toNat + 7) / 8)).toNat ≤ (packCoils bits).length := by
    rw [hcount, length_packCoils, hlen]
    exact ⟨rfl, Nat.le_refl _, Nat.le_refl _⟩
  refine (if_pos hchecks).trans (congrArg some (List.ext_getElem ?_ ?_))
  · rw [List.length_map, List.length_range, hlen]
  · intro i _ hi
    rw [List.getElem_map, List.getElem_range, bitOf]
    have hdata : ([function.code, BitVec.ofNat 8 ((quantity.toNat + 7) / 8)] ++
        packCoils bits)[2 + i / 8]? = (packCoils bits)[i / 8]? := by
      rw [List.getElem?_append_right (by simp)]
      simp
    have hbit := packCoils_bit bits i
    rw [List.getElem?_eq_getElem hi] at hbit
    exact (congrArg (fun byte : Option Byte =>
      decide (((byte.getD 0) >>> (i % 8)) &&& 1 ≠ 0)) hdata).trans hbit

theorem registersOf_flatMap (function : FunctionCode) {registers : List (BitVec 16)}
    (hlen : registers.length = quantity.toNat) (hle : quantity.toNat ≤ 125) :
    registersOf function quantity
      ([function.code, BitVec.ofNat 8 (quantity.toNat * 2)] ++ registers.flatMap toBeBytes) =
        some registers := by
  have hcount : (BitVec.ofNat 8 (quantity.toNat * 2)).toNat = quantity.toNat * 2 := by
    rw [BitVec.toNat_ofNat, Nat.mod_eq_of_lt (by omega)]
  have hchecks : function.code = function.code ∧
      (BitVec.ofNat 8 (quantity.toNat * 2)).toNat = quantity.toNat * 2 ∧
      (BitVec.ofNat 8 (quantity.toNat * 2)).toNat ≤ (registers.flatMap toBeBytes).length := by
    rw [hcount, length_flatMap_toBeBytes, hlen]
    exact ⟨rfl, rfl, Nat.le_refl _⟩
  refine (if_pos hchecks).trans (congrArg some (List.ext_getElem ?_ ?_))
  · rw [List.length_map, List.length_range, hlen]
  · intro i _ hi
    rw [List.getElem_map, List.getElem_range, registerOf]
    have hdata : ∀ j, ([function.code, BitVec.ofNat 8 (quantity.toNat * 2)] ++
        registers.flatMap toBeBytes)[2 + j]? = (registers.flatMap toBeBytes)[j]? := by
      intro j
      rw [List.getElem?_append_right (by simp)]
      simp
    rw [Nat.add_assoc, hdata, hdata]
    exact fromBeBytes_flatMap registers hi

/-- An echo with the words that are compared. -/
theorem decodeEcho_eq (function : FunctionCode) (compare : BitVec 16 → BitVec 16 → PlcResult Unit)
    (first second : BitVec 16) :
    decodeEcho function compare ([function.code] ++ toBeBytes first ++ toBeBytes second) =
      .ok (compare first second) := by
  have hecho : decodeEcho function compare
      ([function.code] ++ toBeBytes first ++ toBeBytes second) =
      if function.code ≠ function.code then .ok (.error (functionMismatch function function.code))
      else .ok (compare (fromBeBytes (first.extractLsb' 8 8) (first.extractLsb' 0 8))
        (fromBeBytes (second.extractLsb' 8 8) (second.extractLsb' 0 8))) := rfl
  rw [hecho, if_neg (not_not.mpr rfl), fromBeBytes_toBeBytes, fromBeBytes_toBeBytes]

theorem compareSingle_self (what : String) (value : BitVec 16) :
    compareSingle what address value address value = .ok () := by
  simp [compareSingle]

theorem compareMultiple_self (what : String) :
    compareMultiple what address quantity address quantity = .ok () := by
  simp [compareMultiple]

theorem length_wordsPdu (function : FunctionCode) (first second : BitVec 16) :
    (wordsPdu function first second).length = 5 := rfl

/-- The response of a write. -/
theorem length_echo (function : FunctionCode) (first second : BitVec 16) :
    ([function.code] ++ toBeBytes first ++ toBeBytes second).length = 5 := rfl

theorem length_wordsPdu_le (function : FunctionCode) (first second : BitVec 16) :
    (wordsPdu function first second).length ≤ 253 := by
  rw [length_wordsPdu]
  decide

end Responses

end VirtualPlc.Fieldbus

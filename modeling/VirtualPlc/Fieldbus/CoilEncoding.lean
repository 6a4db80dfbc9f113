import VirtualPlc.Fieldbus.RoundTrip

/-!
# How the digital outputs are written

The word of digital outputs is unpacked bit by bit into as many coils as the mapping has, and the
coils are packed into the bytes of one request. The mapping is not checked against the width of the
word (`encodesOutputs_iff`).
-/

set_option autoImplicit false

namespace VirtualPlc.Fieldbus

open VirtualPlc.Runtime VirtualPlc.Word ModbusTcpDriver

/-- The coils that a word is unpacked into. -/
def digitalBits (b : Build) (word : BitVec 32) (quantity : Nat) : Except Failure (List Bool) :=
  (List.range quantity).mapM fun i => do
    let shifted ← u32Shr b word i
    return decide (shifted &&& 1 ≠ 0)

/-- A call unpacks the word before anything is sent. -/
theorem writeDigitalOutputs_bits {b : Build} {d : ModbusTcpDriver} {mapping : ModbusMapping}
    (hmapping : d.config.digitalOutputMapping = some mapping) (x : Exchange) :
    d.writeDigitalOutputs b x =
      (digitalBits b d.outputs.digital mapping.quantity.toNat).bind fun bits =>
        d.writeCoils b mapping.address bits x := by
  rw [writeDigitalOutputs, hmapping]
  rfl

/-- The PDU that the mapping and the word ask for: a single coil with bit 0, or the quantity, the
number of data bytes, and bit `i` of the word as coil `i`, where the bits from 32 on are false. -/
def EncodesCoils (mapping : ModbusMapping) (word : BitVec 32) (pdu : List Byte) : Prop :=
  if mapping.quantity = 1 then
    pdu = wordsPdu .writeSingleCoil mapping.address (if word.getLsbD 0 then 0xFF00 else 0x0000)
  else
    ∃ (byteCount : Byte) (data : List Byte),
      pdu = [FunctionCode.writeMultipleCoils.code] ++ toBeBytes mapping.address ++
        toBeBytes mapping.quantity ++ [byteCount] ++ data ∧
      byteCount.toNat = (mapping.quantity.toNat + 7) / 8 ∧ data.length = byteCount.toNat ∧
      ∀ i < mapping.quantity.toNat,
        decide (((data[i / 8]?.getD 0) >>> (i % 8)) &&& 1 ≠ 0) = word.getLsbD i

/-- In every build and for every state of the driver, no shift overflows, and the call returns an
error without sending anything or sends one such request. -/
def EncodesOutputs (mapping : ModbusMapping) (word : BitVec 32) : Prop :=
  ∀ (b : Build) (d : ModbusTcpDriver), d.config.digitalOutputMapping = some mapping →
    d.outputs.digital = word →
    (∃ bits, digitalBits b word mapping.quantity.toNat = .ok bits) ∧
    ((∀ x, ∃ e, d.writeDigitalOutputs b x = .ok (.error e, d)) ∨
      ∃ pdu, EncodesCoils mapping word pdu ∧ Sends d pdu (d.writeDigitalOutputs b))

theorem digitalBits_eq (b : Build) (word : BitVec 32) {quantity : Nat} (h : quantity ≤ 32) :
    digitalBits b word quantity = .ok ((List.range quantity).map word.getLsbD) :=
  mapM_u32Shr b word h

/-- The request for two coils or more. -/
theorem encodesCoils_multiple {mapping : ModbusMapping} (word : BitVec 32)
    (hone : mapping.quantity ≠ 1) (h : mapping.quantity.toNat ≤ 32) :
    EncodesCoils mapping word (multiplePdu .writeMultipleCoils mapping.address mapping.quantity
      (packCoils ((List.range mapping.quantity.toNat).map word.getLsbD))) := by
  have hlength : (packCoils ((List.range mapping.quantity.toNat).map word.getLsbD)).length =
      (mapping.quantity.toNat + 7) / 8 := by
    rw [length_packCoils, List.length_map, List.length_range]
  have hcount : (BitVec.ofNat 8 (packCoils
      ((List.range mapping.quantity.toNat).map word.getLsbD)).length).toNat =
      (mapping.quantity.toNat + 7) / 8 := by
    rw [hlength, BitVec.toNat_ofNat]
    exact Nat.mod_eq_of_lt (by omega)
  rw [EncodesCoils, if_neg hone]
  refine ⟨_, _, rfl, hcount, by rw [hcount, hlength], fun i hi => ?_⟩
  rw [packCoils_bit, List.getElem?_map, List.getElem?_range hi]
  rfl

/-- The bytes of a request for two coils or more. -/
theorem writeCoils_bytes (address : BitVec 16) {values : List Bool} (h : 2 ≤ values.length) :
    (Request.writeCoils address values).bytes =
      multiplePdu .writeMultipleCoils address (BitVec.ofNat 16 values.length)
        (packCoils values) := by
  rcases values with _ | ⟨v₁, _ | ⟨v₂, values⟩⟩
  · exact absurd h (by decide)
  · exact absurd h (by simp)
  · rfl

/-- A driver with the given mapping and outputs. -/
def driverWith (mapping : ModbusMapping) (word : BitVec 32) : ModbusTcpDriver :=
  setOutputs (withConfig { ModbusTcpConfig.default with digitalOutputMapping := some mapping })
    { FieldbusOutputs.zero with digital := word }

/-- Beyond the width of the word a debug build panics at bit 32. -/
theorem digitalBits_overflow {word : BitVec 32} {quantity : Nat} (h : 32 < quantity)
    (bits : List Bool) : digitalBits .debug word quantity ≠ .ok bits := by
  intro hbits
  obtain ⟨bit, hbit⟩ := mapM_ok_mem hbits 32 (List.mem_range.2 h)
  have hpanic : u32Shr .debug word 32 =
      .error (.panic "attempt to shift right with overflow") := rfl
  rw [hpanic] at hbit
  cases hbit

/-- The outputs are encoded as asked for exactly when the mapping has at most as many coils as the
word has bits. -/
theorem encodesOutputs_iff (mapping : ModbusMapping) (word : BitVec 32) :
    EncodesOutputs mapping word ↔ mapping.quantity.toNat ≤ 32 := by
  constructor
  · intro h
    by_contra hlarge
    obtain ⟨⟨bits, hbits⟩, -⟩ := h .debug (driverWith mapping word) rfl rfl
    exact digitalBits_overflow (by omega) bits hbits
  · rintro hle b d hmapping rfl
    have hbits := digitalBits_eq b d.outputs.digital hle
    refine ⟨⟨_, hbits⟩, ?_⟩
    have hcall : ∀ x, d.writeDigitalOutputs b x = d.writeCoils b mapping.address
        ((List.range mapping.quantity.toNat).map d.outputs.digital.getLsbD) x := by
      intro x
      rw [writeDigitalOutputs_bits hmapping, hbits]
      rfl
    -- no coil, one coil, or more
    by_cases hzero : mapping.quantity.toNat = 0
    · refine .inl fun x => ⟨.fieldbusError "Cannot write zero coils", ?_⟩
      rw [hcall, hzero]
      rfl
    by_cases hone : mapping.quantity = 1
    · refine .inr ⟨_, by rw [EncodesCoils, if_pos hone], fun x r d' h => ?_⟩
      rw [hcall, hone] at h
      exact request_sends b d _ _ x r d' h
    · have htwo : 2 ≤ mapping.quantity.toNat := by
        have hne : mapping.quantity.toNat ≠ 1 := fun heq => hone (BitVec.eq_of_toNat_eq heq)
        omega
      have hlength :
          2 ≤ ((List.range mapping.quantity.toNat).map d.outputs.digital.getLsbD).length := by
        rw [List.length_map, List.length_range]
        exact htwo
      have hpdu := writeCoils_bytes mapping.address hlength
      rw [List.length_map, List.length_range, BitVec.ofNat_toNat, BitVec.setWidth_eq] at hpdu
      refine .inr ⟨_, encodesCoils_multiple d.outputs.digital hone hle, fun x r d' h => ?_⟩
      rw [hcall] at h
      rw [← hpdu]
      refine writeCoils_sends ?_ x r d' h
      intro hnil
      rw [List.map_eq_nil_iff, List.range_eq_nil] at hnil
      omega

/-- Eight coils of the word 5. -/
theorem encodesOutputs_eight : EncodesOutputs ⟨0, 8, .writeMultipleCoils⟩ 5 :=
  (encodesOutputs_iff ⟨0, 8, .writeMultipleCoils⟩ 5).2 (by decide)

/-- With 33 coils a debug build panics, and a release build writes bit 0 as coil 32. -/
theorem outputs_wrap : ¬ EncodesOutputs ⟨0, 33, .writeMultipleCoils⟩ 1 ∧
    digitalBits .debug 1 33 = .error (.panic "attempt to shift right with overflow") ∧
    ∃ bits, digitalBits .release 1 33 = .ok bits ∧ bits[32]? = some true := by
  refine ⟨fun h => ?_, by decide, _, rfl, by decide⟩
  obtain ⟨⟨bits, hbits⟩, -⟩ := h .debug (driverWith ⟨0, 33, .writeMultipleCoils⟩ 1) rfl rfl
  exact digitalBits_overflow (by decide) bits hbits

end VirtualPlc.Fieldbus

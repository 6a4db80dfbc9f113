import VirtualPlc.Fieldbus.Requests

/-!
# Decoding without panics

Each decoder checks lengths before it indexes, so it returns on every response. A request can panic
only in `send_request`, where the length field of a response is reduced by one before it is checked.
-/

set_option autoImplicit false

namespace VirtualPlc.Fieldbus

open VirtualPlc.Runtime VirtualPlc.Word ModbusTcpDriver

section MapM

variable {α β ε : Type} {f : α → Except ε β} {g : α → β}

theorem mapM_eq_ok {xs : List α} (h : ∀ x ∈ xs, f x = .ok (g x)) : xs.mapM f = .ok (xs.map g) := by
  induction xs with
  | nil => rfl
  | cons x xs ih =>
    rw [List.mapM_cons, h x List.mem_cons_self, ih fun y hy => h y (List.mem_cons_of_mem _ hy)]
    rfl

/-- Where all of it is computed, each element is. -/
theorem mapM_ok_mem {xs : List α} {ys : List β} (h : xs.mapM f = .ok ys) :
    ∀ x ∈ xs, ∃ y, f x = .ok y := by
  induction xs generalizing ys with
  | nil => simp
  | cons x xs ih =>
    rw [List.mapM_cons] at h
    cases hx : f x with
    | error e =>
      rw [hx] at h
      cases h
    | ok y =>
      cases hxs : xs.mapM f with
      | error e =>
        rw [hx, hxs] at h
        cases h
      | ok zs =>
        intro z hz
        rcases List.mem_cons.1 hz with rfl | hz
        · exact ⟨y, hx⟩
        · exact ih hxs z hz

end MapM

variable {b : Build} {function : FunctionCode} {quantity : BitVec 16} {response : List Byte}

/-- Bit `i` of the data of a response. -/
def bitOf (response : List Byte) (i : Nat) : Bool :=
  decide (((response[2 + i / 8]?.getD 0) >>> (i % 8)) &&& 1 ≠ 0)

/-- Register `i` of the data of a response. -/
def registerOf (response : List Byte) (i : Nat) : BitVec 16 :=
  fromBeBytes (response[2 + i * 2]?.getD 0) (response[2 + i * 2 + 1]?.getD 0)

/-- The bits of a response to `read_bits`. -/
def bitsOf (function : FunctionCode) (quantity : BitVec 16) (response : List Byte) :
    Option (List Bool) :=
  match response with
  | code :: byteCount :: data =>
    if code = function.code ∧ (quantity.toNat + 7) / 8 ≤ byteCount.toNat ∧
        byteCount.toNat ≤ data.length then
      some ((List.range quantity.toNat).map (bitOf response))
    else none
  | _ => none

/-- The registers of a response to `read_registers`. -/
def registersOf (function : FunctionCode) (quantity : BitVec 16) (response : List Byte) :
    Option (List (BitVec 16)) :=
  match response with
  | code :: byteCount :: data =>
    if code = function.code ∧ byteCount.toNat = quantity.toNat * 2 ∧
        byteCount.toNat ≤ data.length then
      some ((List.range quantity.toNat).map (registerOf response))
    else none
  | _ => none

theorem index_eq_getD {xs : List Byte} {i : Nat} (h : i < xs.length) :
    index xs i = .ok (xs[i]?.getD 0) := by
  rw [index_eq h, List.getElem?_eq_getElem h]
  rfl

/-- `decode` returns on `response`, and successfully exactly with the value `spec`. -/
def Decodes {α : Type} (answer : Except Failure (PlcResult α)) (spec : Option α) : Prop :=
  match spec with
  | some value => answer = .ok (.ok value)
  | none => ∃ e, answer = .ok (.error e)

theorem decodeBits_decodes (b : Build) (function : FunctionCode) (quantity : BitVec 16)
    (response : List Byte) :
    Decodes (decodeBits b function quantity response) (bitsOf function quantity response) := by
  match response with
  | [] => exact ⟨_, rfl⟩
  | [_] => exact ⟨_, rfl⟩
  | code :: byteCount :: data =>
    have hlen : ¬ (code :: byteCount :: data).length < 2 := by simp
    have hspec : bitsOf function quantity (code :: byteCount :: data) =
        if code = function.code ∧ (quantity.toNat + 7) / 8 ≤ byteCount.toNat ∧
            byteCount.toNat ≤ data.length then
          some ((List.range quantity.toNat).map (bitOf (code :: byteCount :: data)))
        else none := rfl
    unfold decodeBits
    rw [if_neg hlen, hspec]
    change Decodes (if code ≠ function.code then _ else _) _
    by_cases hcode : code = function.code
    · rw [if_neg (not_not.mpr hcode)]
      change Decodes (if byteCount.toNat < (quantity.toNat + 7) / 8 then _ else _) _
      by_cases hcount : byteCount.toNat < (quantity.toNat + 7) / 8
      · rw [if_pos hcount, if_neg (by omega)]
        exact ⟨_, rfl⟩
      · rw [if_neg hcount]
        by_cases hshort : (code :: byteCount :: data).length < 2 + byteCount.toNat
        · rw [if_pos hshort, usizeSub_eq (by simp)]
          simp only [List.length_cons] at hshort
          rw [if_neg (by omega)]
          exact ⟨_, rfl⟩
        · rw [if_neg hshort]
          -- with all data there, no index is out of bounds
          have hbits : ∀ i ∈ List.range quantity.toNat,
              (do
                let byte ← index (code :: byteCount :: data) (2 + i / 8)
                return decide ((byte >>> (i % 8)) &&& 1 ≠ 0) : Except Failure Bool) =
              .ok (bitOf (code :: byteCount :: data) i) := by
            intro i hi
            have hi' := List.mem_range.mp hi
            rw [index_eq_getD (by omega)]
            rfl
          rw [mapM_eq_ok hbits]
          simp only [List.length_cons] at hshort
          rw [if_pos ⟨hcode, by omega, by omega⟩]
          rfl
    · rw [if_pos hcode, if_neg (fun h => hcode h.1)]
      exact ⟨_, rfl⟩

theorem decodeRegisters_decodes (function : FunctionCode) (quantity : BitVec 16)
    (response : List Byte) :
    Decodes (decodeRegisters function quantity response)
      (registersOf function quantity response) := by
  match response with
  | [] => exact ⟨_, rfl⟩
  | [_] => exact ⟨_, rfl⟩
  | code :: byteCount :: data =>
    have hlen : ¬ (code :: byteCount :: data).length < 2 := by simp
    have hspec : registersOf function quantity (code :: byteCount :: data) =
        if code = function.code ∧ byteCount.toNat = quantity.toNat * 2 ∧
            byteCount.toNat ≤ data.length then
          some ((List.range quantity.toNat).map (registerOf (code :: byteCount :: data)))
        else none := rfl
    unfold decodeRegisters
    rw [if_neg hlen, hspec]
    change Decodes (if code ≠ function.code then _ else _) _
    by_cases hcode : code = function.code
    · rw [if_neg (not_not.mpr hcode)]
      change Decodes (if byteCount.toNat ≠ quantity.toNat * 2 then _ else _) _
      by_cases hcount : byteCount.toNat = quantity.toNat * 2
      · rw [if_neg (not_not.mpr hcount)]
        by_cases hshort : (code :: byteCount :: data).length < 2 + byteCount.toNat
        · rw [if_pos hshort]
          simp only [List.length_cons] at hshort
          rw [if_neg (by omega)]
          exact ⟨_, rfl⟩
        · rw [if_neg hshort]
          -- with all data there, no index is out of bounds
          have hregisters : ∀ i ∈ List.range quantity.toNat,
              (do
                let offset := 2 + i * 2
                return fromBeBytes (← index (code :: byteCount :: data) offset)
                  (← index (code :: byteCount :: data) (offset + 1)) : Except Failure (BitVec 16)) =
              .ok (registerOf (code :: byteCount :: data) i) := by
            intro i hi
            have hi' := List.mem_range.mp hi
            dsimp only
            rw [index_eq_getD (by omega), index_eq_getD (by omega)]
            rfl
          rw [mapM_eq_ok hregisters]
          simp only [List.length_cons] at hshort
          rw [if_pos ⟨hcode, hcount, by omega⟩]
          rfl
      · rw [if_pos hcount, if_neg (fun h => hcount h.2.1)]
        exact ⟨_, rfl⟩
    · rw [if_pos hcode, if_neg (fun h => hcode h.1)]
      exact ⟨_, rfl⟩

theorem Decodes.returns {α : Type} {answer : Except Failure (PlcResult α)} {spec : Option α}
    (h : Decodes answer spec) : ∃ result, answer = .ok result := by
  cases spec with
  | none =>
    obtain ⟨e, he⟩ := h
    exact ⟨_, he⟩
  | some value => exact ⟨_, h⟩

theorem decodeEcho_returns (function : FunctionCode)
    (compare : BitVec 16 → BitVec 16 → PlcResult Unit) (response : List Byte) :
    ∃ result, decodeEcho function compare response = .ok result := by
  match response with
  | [] | [_] | [_, _] | [_, _, _] | [_, _, _, _] => exact ⟨_, rfl⟩
  | code :: r1 :: r2 :: r3 :: r4 :: rest =>
    have hlen : ¬ (code :: r1 :: r2 :: r3 :: r4 :: rest).length < 5 := by simp
    unfold decodeEcho
    rw [if_neg hlen]
    change ∃ result, (if code ≠ function.code then _ else _) = _
    split
    · exact ⟨_, rfl⟩
    · exact ⟨_, rfl⟩

/-! ## Requests that return -/

/-- The requests of the driver. -/
inductive Request where
  | send (pdu : List Byte)
  | readBits (function : FunctionCode) (address quantity : BitVec 16)
  | readRegisters (function : FunctionCode) (address quantity : BitVec 16)
  | writeSingleCoil (address : BitVec 16) (value : Bool)
  | writeSingleRegister (address value : BitVec 16)
  | writeCoils (address : BitVec 16) (values : List Bool)
  | writeRegisters (address : BitVec 16) (values : List (BitVec 16))

namespace Request

/-- The PDU of a request; a write of nothing sends none. -/
def pdu : Request → Option (List Byte)
  | send pdu => some pdu
  | readBits function address quantity | readRegisters function address quantity =>
    some (wordsPdu function address quantity)
  | writeSingleCoil address value | writeCoils address [value] =>
    some (wordsPdu .writeSingleCoil address (if value then 0xFF00 else 0x0000))
  | writeSingleRegister address value | writeRegisters address [value] =>
    some (wordsPdu .writeSingleRegister address value)
  | writeCoils _ [] | writeRegisters _ [] => none
  | writeCoils address values =>
    some (multiplePdu .writeMultipleCoils address (BitVec.ofNat 16 values.length)
      (packCoils values))
  | writeRegisters address values =>
    some (multiplePdu .writeMultipleRegisters address (BitVec.ofNat 16 values.length)
      (values.flatMap toBeBytes))

/-- The call of a request returns, with a result or an error. -/
def Returns (b : Build) (d : ModbusTcpDriver) (x : Exchange) : Request → Prop
  | send pdu => ∃ answer, d.sendRequest b pdu x = .ok answer
  | readBits function address quantity =>
    ∃ answer, d.readBits b function address quantity x = .ok answer
  | readRegisters function address quantity =>
    ∃ answer, d.readRegisters b function address quantity x = .ok answer
  | writeSingleCoil address value => ∃ answer, d.writeSingleCoil b address value x = .ok answer
  | writeSingleRegister address value =>
    ∃ answer, d.writeSingleRegister b address value x = .ok answer
  | writeCoils address values => ∃ answer, d.writeCoils b address values x = .ok answer
  | writeRegisters address values => ∃ answer, d.writeRegisters b address values x = .ok answer

end Request

variable {d : ModbusTcpDriver} {x : Exchange}

/-- With a decoder that returns, a request returns if sending it does. -/
theorem request_returns_iff {α : Type} {pdu : List Byte}
    {decode : List Byte → Except Failure (PlcResult α)}
    (hdecode : ∀ response, ∃ result, decode response = .ok result) :
    (∃ answer, d.request b pdu decode x = .ok answer) ↔ (b = .debug → d.LengthsInRange pdu x) := by
  rw [← sendRequest_returns_iff]
  unfold request onSuccess
  cases d.sendRequest b pdu x with
  | error failure =>
    constructor
    · rintro ⟨_, h⟩
      cases h
    · rintro ⟨_, h⟩
      cases h
  | ok answer =>
    refine ⟨fun _ => ⟨_, rfl⟩, fun _ => ?_⟩
    match answer with
    | (.error e, d') => exact ⟨_, rfl⟩
    | (.ok response, d') =>
      obtain ⟨result, hresult⟩ := hdecode response
      exact ⟨(result, d'), by dsimp only; rw [hresult]; rfl⟩

theorem Request.returns_build_iff (request : Request) :
    request.Returns b d x ↔
      ∀ pdu, request.pdu = some pdu → b = .debug → d.LengthsInRange pdu x := by
  have hsome : ∀ pdu, (b = .debug → d.LengthsInRange pdu x) ↔
      ∀ pdu', some pdu = some pdu' → b = .debug → d.LengthsInRange pdu' x := by
    intro pdu
    constructor
    · intro h pdu' heq
      cases heq
      exact h
    · exact fun h => h pdu rfl
  match request with
  | .send pdu => exact sendRequest_returns_iff.trans (hsome pdu)
  | .readBits function address quantity =>
    exact (request_returns_iff fun response =>
      (decodeBits_decodes b function quantity response).returns).trans (hsome _)
  | .readRegisters function address quantity =>
    exact (request_returns_iff fun response =>
      (decodeRegisters_decodes function quantity response).returns).trans (hsome _)
  | .writeSingleCoil address value | .writeCoils address [value] =>
    exact (request_returns_iff (decodeEcho_returns _ _)).trans (hsome _)
  | .writeSingleRegister address value | .writeRegisters address [value] =>
    exact (request_returns_iff (decodeEcho_returns _ _)).trans (hsome _)
  | .writeCoils _ [] | .writeRegisters _ [] =>
    constructor
    · intro _ pdu hnone
      cases hnone
    · exact fun _ => ⟨_, rfl⟩
  | .writeCoils address (_ :: _ :: _) =>
    exact (request_returns_iff (decodeEcho_returns _ _)).trans (hsome _)
  | .writeRegisters address (_ :: _ :: _) =>
    exact (request_returns_iff (decodeEcho_returns _ _)).trans (hsome _)

/-- In every build a request returns exactly if its lengths are in range. -/
theorem Request.returns_iff (request : Request) (d : ModbusTcpDriver) (x : Exchange) :
    (∀ b, request.Returns b d x) ↔ ∀ pdu, request.pdu = some pdu → d.LengthsInRange pdu x := by
  constructor
  · intro h pdu hpdu
    exact request.returns_build_iff.mp (h .debug) pdu hpdu rfl
  · intro h b
    exact request.returns_build_iff.mpr fun pdu hpdu _ => h pdu hpdu

/-- A response that answers the first request and whose length field is 0. -/
def emptyFrame : Exchange where
  send := .ok ()
  header := .ok #v[0, 1, 0, 0, 0, 0, 1]
  pdu := fun n => .ok (Vector.replicate n 0)

/-- The subtraction for the unit identifier underflows. -/
theorem length_underflow : ¬ ∀ (b : Build) (request : Request) (d : ModbusTcpDriver)
    (x : Exchange), request.Returns b d x := by
  intro h
  let connected : ModbusTcpDriver :=
    ((withConfig .default).connect ⟨.ok (), .ok (), .ok (), .ok ()⟩).2
  have hrange := (Request.readBits .readCoils 0 16).returns_build_iff.mp
    (h .debug (.readBits .readCoils 0 16) connected emptyFrame) _ rfl rfl rfl
  exact hrange.2 ⟨1, 0, 0, 1⟩ rfl (by decide) rfl

end VirtualPlc.Fieldbus

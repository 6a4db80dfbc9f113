import VirtualPlc.Compiler.Code

/-!
# Memory accesses of variables

The load and the store of a type as one read or write of `accessWidth` bytes.
-/

set_option autoImplicit false

namespace VirtualPlc.Compiler

open VirtualPlc.Word VirtualPlc.Wasm VirtualPlc.Control

universe u

/-- Bytes that the load and the store of a type touch. -/
def DataType.accessWidth : DataType → Nat
  | .bool | .sint | .usint | .byte => 1
  | .int | .uint | .word => 2
  | .lint | .ulint | .lword | .time | .lreal => 8
  | _ => 4

/-- Value type of the load and the store of a type. -/
def DataType.valType : DataType → ValType
  | .lint | .ulint | .lword | .time => .i64
  | .real => .f32
  | .lreal => .f64
  | _ => .i32

/-- The value that the load of a type makes of the bytes `x`: narrow types are sign-extended. -/
def DataType.decode (ty : DataType) (x : Nat) : Value :=
  match ty with
  | .bool | .sint | .usint | .byte => .i32 ((BitVec.ofNat 8 x).signExtend 32)
  | .int | .uint | .word => .i32 ((BitVec.ofNat 16 x).signExtend 32)
  | .lint | .ulint | .lword | .time => .i64 (BitVec.ofNat 64 x)
  | .real => .f32 (BitVec.ofNat 32 x)
  | .lreal => .f64 (BitVec.ofNat 64 x)
  | _ => .i32 (BitVec.ofNat 32 x)

variable {κ : Type u} (env : Env κ)

theorem stepOp_loadOp (ty : DataType) (offset : Nat) (a : BitVec 32) (st l : List Value)
    (m : Memory) :
    stepOp env (loadOp ty offset) ⟨.i32 a :: st, l, m⟩ =
      State.pushOrTrap ⟨st, l, m⟩ ((m.read (a.toNat + offset) ty.accessWidth).map ty.decode) := by
  cases ty <;> rfl

theorem stepOp_storeOp (ty : DataType) (s : State) :
    stepOp env (storeOp ty) s = s.storeWith env ty.valType 0 ty.accessWidth := by
  cases ty <;> rfl

theorem DataType.accessWidth_pos (ty : DataType) : 0 < ty.accessWidth := by
  cases ty <;> simp [DataType.accessWidth]

@[simp] theorem execSeq_ops_nil (m : Machine Op Bounds Fault State) (n : Nat) (s : State) :
    execSeq m n (ops []) s = .normal s := rfl

@[simp] theorem execSeq_ops_cons (m : Machine Op Bounds Fault State) (n : Nat) (o : Op)
    (os : List Op) (s : State) :
    execSeq m n (ops (o :: os)) s = (m.step o s).andThen (execSeq m n (ops os)) := rfl

/-- A host environment without functions, guards and observations. -/
def bareEnv : Env Bounds where
  float := ⟨fun _ x _ => x, fun _ x _ => x, fun _ _ _ => false, fun _ _ _ => false⟩
  funcType := fun _ => none
  call := fun _ _ _ => none
  guard := fun _ => false
  probe := fun _ _ => none

theorem asU32_of_lt {x : Nat} (h : x < 2 ^ 32) : asU32 x = x := Nat.mod_eq_of_lt h

/-- Reading a variable. -/
theorem execSeq_variable (env : Env Bounds) (link : String → Bool → Nat) (n : Nat) (name : String)
    (offset : Nat) (ty : DataType) (st l : List Value) (m : Memory) :
    execSeq (machine env) n (exprCode link (.variable name offset ty)) ⟨st, l, m⟩ =
      State.pushOrTrap ⟨st, l, m⟩ ((m.read (asU32 offset) ty.accessWidth).map ty.decode) := by
  have hzero : (0 : BitVec 32).toNat + asU32 offset = asU32 offset := by simp
  simp only [exprCode, execSeq_ops_cons, machine_step, stepOp_const, State.push_mk,
    Outcome.andThen_normal, stepOp_loadOp, hzero]
  cases m.read (asU32 offset) ty.accessWidth <;> rfl

end VirtualPlc.Compiler

import VirtualPlc.Wasm.Syntax
import VirtualPlc.Word.Memory

/-!
# Execution of WebAssembly code

The machine of `VirtualPlc.Control` for the operations `Op`: operand stack, locals and one linear
memory. Floating-point operations and host functions are parameters. Two things beyond the standard
serve to state properties of runs: a set of guarded addresses, whose first store stops the run with
`guarded`, and observations, which may stop it with `observed`. Code that meets an operand of the
wrong type stops with `stuck`.
-/

set_option autoImplicit false

namespace VirtualPlc.Wasm

open VirtualPlc.Control VirtualPlc.Word

universe u

variable {κ : Type u}

/-- Reasons for which a run stops. -/
inductive Fault where
  | trap
  | stuck
  | guarded
  | observed
  | malformed
deriving DecidableEq, Repr

/-- Floating-point operations on bit patterns. -/
structure FloatOps where
  bin32 : FloatBin → BitVec 32 → BitVec 32 → BitVec 32
  bin64 : FloatBin → BitVec 64 → BitVec 64 → BitVec 64
  rel32 : FloatRel → BitVec 32 → BitVec 32 → Bool
  rel64 : FloatRel → BitVec 64 → BitVec 64 → Bool

/-- State of a running function: operand stack (top first), locals, memory. -/
structure State where
  stack : List Value
  locals : List Value
  mem : Memory

/-- Result of a call: results and memory, or a fault; `none` when the call ran out of fuel. -/
abbrev CallResult := Option (Except Fault (List Value × Memory))

/-- What the operations of a function need from outside it. -/
structure Env (κ : Type u) where
  float : FloatOps
  funcType : Nat → Option FuncType
  call : Nat → List Value → Memory → CallResult
  guard : Nat → Bool
  probe : κ → State → Option Fault

/-- Integer operators; `none` is a trap. -/
def IntBin.eval {w : Nat} (o : IntBin) (a b : BitVec w) : Option (BitVec w) :=
  match o with
  | .add => some (a + b)
  | .sub => some (a - b)
  | .mul => some (a * b)
  | .divS =>
    if b = 0 ∨ (a = BitVec.intMin w ∧ b = BitVec.allOnes w) then none else some (a.sdiv b)
  | .remS => if b = 0 then none else some (a.srem b)
  | .and => some (a &&& b)
  | .or => some (a ||| b)
  | .xor => some (a ^^^ b)
  | .shl => some (a <<< (b.toNat % w))
  | .shrS => some (a.sshiftRight (b.toNat % w))

/-- Integer comparisons. -/
def IntRel.eval {w : Nat} (o : IntRel) (a b : BitVec w) : Bool :=
  match o with
  | .eq => a == b
  | .ne => a != b
  | .ltS => a.slt b
  | .leS => a.sle b
  | .gtS => b.slt a
  | .geS => b.sle a

/-- A truth value as `i32`. -/
def boolValue (b : Bool) : Value := .i32 (if b then 1 else 0)

/-- The value of type `t` with the little-endian bytes `x`. -/
def ValType.fromBits (t : ValType) (x : Nat) : Value :=
  match t with
  | .i32 => .i32 (BitVec.ofNat 32 x)
  | .i64 => .i64 (BitVec.ofNat 64 x)
  | .f32 => .f32 (BitVec.ofNat 32 x)
  | .f64 => .f64 (BitVec.ofNat 64 x)

/-- The bits of a value as a natural number. -/
def Value.bits : Value → Nat
  | .i32 v => v.toNat
  | .i64 v => v.toNat
  | .f32 v => v.toNat
  | .f64 v => v.toNat

/-- Push an operand. -/
def State.push (s : State) (v : Value) : State := { s with stack := v :: s.stack }

/-- Continue with the top operand. -/
def State.pop (s : State) (k : Value → State → Outcome Fault State) : Outcome Fault State :=
  match s.stack with
  | v :: rest => k v { s with stack := rest }
  | [] => .abort .stuck

/-- Continue with the top operand of type `i32`. -/
def State.popI32 (s : State) (k : BitVec 32 → State → Outcome Fault State) : Outcome Fault State :=
  s.pop fun v s' =>
    match v with
    | .i32 x => k x s'
    | _ => .abort .stuck

/-- Continue with the two top operands of type `i32`, the upper one second. -/
def State.popI32s (s : State) (k : BitVec 32 → BitVec 32 → State → Outcome Fault State) :
    Outcome Fault State :=
  s.popI32 fun y s' => s'.popI32 fun x s'' => k x y s''

/-- Continue with the two top operands of type `i64`, the upper one second. -/
def State.popI64s (s : State) (k : BitVec 64 → BitVec 64 → State → Outcome Fault State) :
    Outcome Fault State :=
  s.pop fun w s' => s'.pop fun v s'' =>
    match v, w with
    | .i64 x, .i64 y => k x y s''
    | _, _ => .abort .stuck

/-- Continue with the two top operands of type `f32`, the upper one second. -/
def State.popF32s (s : State) (k : BitVec 32 → BitVec 32 → State → Outcome Fault State) :
    Outcome Fault State :=
  s.pop fun w s' => s'.pop fun v s'' =>
    match v, w with
    | .f32 x, .f32 y => k x y s''
    | _, _ => .abort .stuck

/-- Continue with the two top operands of type `f64`, the upper one second. -/
def State.popF64s (s : State) (k : BitVec 64 → BitVec 64 → State → Outcome Fault State) :
    Outcome Fault State :=
  s.pop fun w s' => s'.pop fun v s'' =>
    match v, w with
    | .f64 x, .f64 y => k x y s''
    | _, _ => .abort .stuck

/-- Push a result that may trap. -/
def State.pushOrTrap (s : State) (r : Option Value) : Outcome Fault State :=
  match r with
  | some v => .normal (s.push v)
  | none => .abort .trap

/-- Read `n` bytes at the address on the stack plus `offset` and push what `f` makes of them. -/
def State.loadWith (s : State) (offset n : Nat) (f : Nat → Value) : Outcome Fault State :=
  s.popI32 fun a s' => s'.pushOrTrap ((s'.mem.read (a.toNat + offset) n).map f)

/-- Some address of `[a, a + n)` is guarded. -/
def Env.guarded (env : Env κ) (a n : Nat) : Bool := (List.range n).any fun i => env.guard (a + i)

/-- Store the low `n` bytes of an operand of type `t` at the address below it plus `offset`. -/
def State.storeWith (env : Env κ) (s : State) (t : ValType) (offset n : Nat) :
    Outcome Fault State :=
  s.pop fun v s' => s'.popI32 fun a s'' =>
    if v.type = t then
      match s''.mem.write (a.toNat + offset) n v.bits with
      | none => .abort .trap
      | some mem =>
        if env.guarded (a.toNat + offset) n then .abort .guarded
        else .normal { s'' with mem := mem }
    else .abort .stuck

/-- Call the function `i` with the operands its type asks for. -/
def State.callWith (env : Env κ) (s : State) (i : Nat) : Outcome Fault State :=
  match env.funcType i with
  | none => .abort .stuck
  | some ft =>
    let args := (s.stack.take ft.params.length).reverse
    if args.map Value.type = ft.params then
      match env.call i args s.mem with
      | none => .timeout
      | some (.error e) => .abort e
      | some (.ok (results, mem)) =>
        .normal { s with stack := results.reverse ++ s.stack.drop ft.params.length, mem := mem }
    else .abort .stuck

/-- One basic operation. -/
def stepOp (env : Env κ) (op : Op) (s : State) : Outcome Fault State :=
  match op with
  | .const v => .normal (s.push v)
  | .load t offset => s.loadWith offset t.width t.fromBits
  | .load8S offset => s.loadWith offset 1 fun x => .i32 ((BitVec.ofNat 8 x).signExtend 32)
  | .load16S offset => s.loadWith offset 2 fun x => .i32 ((BitVec.ofNat 16 x).signExtend 32)
  | .store t offset => s.storeWith env t offset t.width
  | .store8 offset => s.storeWith env .i32 offset 1
  | .store16 offset => s.storeWith env .i32 offset 2
  | .localGet i =>
    match s.locals[i]? with
    | some v => .normal (s.push v)
    | none => .abort .stuck
  | .localSet i =>
    s.pop fun v s' =>
      if i < s'.locals.length then .normal { s' with locals := s'.locals.set i v }
      else .abort .stuck
  | .i32Bin o => s.popI32s fun x y s' => s'.pushOrTrap ((o.eval x y).map .i32)
  | .i64Bin o => s.popI64s fun x y s' => s'.pushOrTrap ((o.eval x y).map .i64)
  | .f32Bin o => s.popF32s fun x y s' => .normal (s'.push (.f32 (env.float.bin32 o x y)))
  | .f64Bin o => s.popF64s fun x y s' => .normal (s'.push (.f64 (env.float.bin64 o x y)))
  | .i32Eqz => s.popI32 fun x s' => .normal (s'.push (boolValue (x == 0)))
  | .i32Rel o => s.popI32s fun x y s' => .normal (s'.push (boolValue (o.eval x y)))
  | .f32Rel o => s.popF32s fun x y s' => .normal (s'.push (boolValue (env.float.rel32 o x y)))
  | .f64Rel o => s.popF64s fun x y s' => .normal (s'.push (boolValue (env.float.rel64 o x y)))
  | .br d => .br d s
  | .brIf d => s.popI32 fun x s' => if x = 0 then .normal s' else .br d s'
  | .ret => .ret s
  | .call i => s.callWith env i
  | .drop => s.pop fun _ s' => .normal s'

/-- Consume the condition of a conditional. -/
def State.test (s : State) : Except Fault (Bool × State) :=
  match s.stack with
  | .i32 x :: rest => .ok (x != 0, { s with stack := rest })
  | _ => .error .stuck

/-- The structured-control machine of an environment. -/
def machine (env : Env κ) : Machine Op κ Fault State where
  step := stepOp env
  probe := env.probe
  test := State.test
  unwind entry s := { s with stack := entry.stack }

/-! ## Calls -/

/-- Body of a function: declared locals and code. -/
structure Body (κ : Type u) where
  locals : List ValType
  code : List (Code Op κ)

/-- A host function: results and memory, or a trap. -/
abbrev HostFunction := List Value → Memory → Option (List Value × Memory)

/-- An instantiated program: host functions come first in the function index space. -/
structure Instance (κ : Type u) where
  float : FloatOps
  hosts : List HostFunction
  funcType : Nat → Option FuncType
  bodies : List (Body κ)
  guard : Nat → Bool
  probe : κ → State → Option Fault

/-- The environment of a function of the program, given what calls do. -/
def Instance.env (p : Instance κ) (call : Nat → List Value → Memory → CallResult) : Env κ :=
  ⟨p.float, p.funcType, call, p.guard, p.probe⟩

/-- The results of a function left on the stack when its code ends. -/
def bodyResult (results : Nat) : Outcome Fault State → CallResult
  | .normal s => some (.ok ((s.stack.take results).reverse, s.mem))
  | .br 0 s => some (.ok ((s.stack.take results).reverse, s.mem))
  | .br (_ + 1) _ => some (.error .stuck)
  | .ret s => some (.ok ((s.stack.take results).reverse, s.mem))
  | .abort e => some (.error e)
  | .timeout => none

/-- The result of a host function; results of other types than declared trap. -/
def hostResult (results : List ValType) (r : Option (List Value × Memory)) : CallResult :=
  match r with
  | some (vs, mem) =>
    if vs.map Value.type = results then some (.ok (vs, mem)) else some (.error .trap)
  | none => some (.error .trap)

/-- Call the function `i` with at most `d` nested calls and `n` iterations of each loop. -/
def Instance.call (p : Instance κ) (n : Nat) : Nat → Nat → List Value → Memory → CallResult
  | 0, _, _, _ => none
  | d + 1, i, args, mem =>
    match p.funcType i with
    | none => some (.error .stuck)
    | some ft =>
      match p.hosts[i]? with
      | some f => hostResult ft.results (f args mem)
      | none =>
        match p.bodies[i - p.hosts.length]? with
        | some b =>
          bodyResult ft.results.length <|
            execSeq (machine (p.env (p.call n d))) n b.code
              ⟨[], args ++ b.locals.map ValType.zero, mem⟩
        | none => some (.error .stuck)

/-- The function bodies of a module, when each is well nested. -/
def Module.bodies (m : Module) : Option (List (Body κ)) :=
  m.funcs.mapM fun f => (parseBody f.body).map (Body.mk f.locals)

/-- Write the data segments. -/
def Module.initData (m : Module) (mem : Memory) : Option Memory :=
  m.data.foldlM (fun mem seg =>
    if seg.offset + seg.bytes.length ≤ mem.size then
      some { mem with byte := fun i =>
        if seg.offset ≤ i then (seg.bytes[i - seg.offset]?).getD (mem.byte i) else mem.byte i }
    else none) mem

/-- The memory of a new instance: zero pages, then the data segments. -/
def Module.initialMemory (m : Module) : Option Memory :=
  m.initData (Memory.zeroed (m.memory.minimum * pageSize))

/-! ## Equations -/

section Equations

variable (env : Env κ) (l : List Value) (m : Memory) (st : List Value)

@[simp] theorem machine_step (op : Op) (s : State) :
    (machine env).step op s = stepOp env op s := rfl
@[simp] theorem machine_probe (k : κ) (s : State) : (machine env).probe k s = env.probe k s := rfl
@[simp] theorem machine_test (s : State) : (machine env).test s = s.test := rfl
@[simp] theorem machine_unwind (entry s : State) :
    (machine env).unwind entry s = { s with stack := entry.stack } := rfl

@[simp] theorem State.push_mk (v : Value) : State.push ⟨st, l, m⟩ v = ⟨v :: st, l, m⟩ := rfl

@[simp] theorem State.pop_cons (v : Value) (k : Value → State → Outcome Fault State) :
    State.pop ⟨v :: st, l, m⟩ k = k v ⟨st, l, m⟩ := rfl

@[simp] theorem State.pop_nil (k : Value → State → Outcome Fault State) :
    State.pop ⟨[], l, m⟩ k = .abort .stuck := rfl

@[simp] theorem State.popI32_cons (x : BitVec 32) (k : BitVec 32 → State → Outcome Fault State) :
    State.popI32 ⟨.i32 x :: st, l, m⟩ k = k x ⟨st, l, m⟩ := rfl

@[simp] theorem State.test_cons (x : BitVec 32) :
    State.test ⟨.i32 x :: st, l, m⟩ = .ok (x != 0, ⟨st, l, m⟩) := rfl

@[simp] theorem State.pushOrTrap_some (s : State) (v : Value) :
    s.pushOrTrap (some v) = .normal (s.push v) := rfl

@[simp] theorem State.pushOrTrap_none (s : State) : s.pushOrTrap none = .abort .trap := rfl

@[simp] theorem stepOp_const (v : Value) (s : State) :
    stepOp env (.const v) s = .normal (s.push v) := rfl

@[simp] theorem stepOp_br (d : Nat) (s : State) : stepOp env (.br d) s = .br d s := rfl

@[simp] theorem stepOp_ret (s : State) : stepOp env .ret s = .ret s := rfl

@[simp] theorem stepOp_brIf (d : Nat) (x : BitVec 32) :
    stepOp env (.brIf d) ⟨.i32 x :: st, l, m⟩ =
      if x = 0 then .normal ⟨st, l, m⟩ else .br d ⟨st, l, m⟩ := rfl

@[simp] theorem stepOp_i32Eqz (x : BitVec 32) :
    stepOp env .i32Eqz ⟨.i32 x :: st, l, m⟩ = .normal ⟨boolValue (x == 0) :: st, l, m⟩ := rfl

@[simp] theorem stepOp_i32Bin (o : IntBin) (x y : BitVec 32) :
    stepOp env (.i32Bin o) ⟨.i32 y :: .i32 x :: st, l, m⟩ =
      State.pushOrTrap ⟨st, l, m⟩ ((o.eval x y).map .i32) := rfl

@[simp] theorem stepOp_i32Rel (o : IntRel) (x y : BitVec 32) :
    stepOp env (.i32Rel o) ⟨.i32 y :: .i32 x :: st, l, m⟩ =
      .normal ⟨boolValue (o.eval x y) :: st, l, m⟩ := rfl

@[simp] theorem stepOp_load8S (offset : Nat) (a : BitVec 32) :
    stepOp env (.load8S offset) ⟨.i32 a :: st, l, m⟩ =
      State.pushOrTrap ⟨st, l, m⟩ ((m.read (a.toNat + offset) 1).map fun x =>
        .i32 ((BitVec.ofNat 8 x).signExtend 32)) := rfl

@[simp] theorem stepOp_load16S (offset : Nat) (a : BitVec 32) :
    stepOp env (.load16S offset) ⟨.i32 a :: st, l, m⟩ =
      State.pushOrTrap ⟨st, l, m⟩ ((m.read (a.toNat + offset) 2).map fun x =>
        .i32 ((BitVec.ofNat 16 x).signExtend 32)) := rfl

@[simp] theorem stepOp_load (t : ValType) (offset : Nat) (a : BitVec 32) :
    stepOp env (.load t offset) ⟨.i32 a :: st, l, m⟩ =
      State.pushOrTrap ⟨st, l, m⟩ ((m.read (a.toNat + offset) t.width).map t.fromBits) := rfl

end Equations

/-- A store that fits in memory outside the guarded addresses. -/
theorem storeWith_eq {env : Env κ} {t : ValType} {offset n : Nat} {v : Value} {a : BitVec 32}
    {st l : List Value} {m : Memory} (ht : v.type = t) (hfit : a.toNat + offset + n ≤ m.size)
    (hguard : env.guarded (a.toNat + offset) n = false) :
    State.storeWith env ⟨v :: .i32 a :: st, l, m⟩ t offset n =
      .normal ⟨st, l, m.set (a.toNat + offset) n v.bits⟩ := by
  simp [State.storeWith, ht, Memory.write_eq hfit, hguard]

/-- A store that does not fit in memory traps. -/
theorem storeWith_trap {env : Env κ} {t : ValType} {offset n : Nat} {v : Value} {a : BitVec 32}
    {st l : List Value} {m : Memory} (ht : v.type = t) (hfit : m.size < a.toNat + offset + n) :
    State.storeWith env ⟨v :: .i32 a :: st, l, m⟩ t offset n = .abort .trap := by
  simp [State.storeWith, ht, Memory.write_eq_none hfit]

theorem Env.guarded_eq_false {env : Env κ} {a n : Nat}
    (h : ∀ i, a ≤ i → i < a + n → env.guard i = false) : env.guarded a n = false := by
  simp only [Env.guarded, List.any_eq_false, List.mem_range]
  intro i hi
  simp [h (a + i) (by omega) (by omega)]

end VirtualPlc.Wasm

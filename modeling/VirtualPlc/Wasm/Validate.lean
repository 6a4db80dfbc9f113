import VirtualPlc.Wasm.Exec

/-!
# Validation of WebAssembly modules

Validation types the operand stack of every instruction. After an unconditional branch the stack is
`dead`: operands may then be taken that no instruction has pushed. A construct has the empty block
type, so its code starts on an empty stack of its own and ends with that stack empty.
-/

set_option autoImplicit false

namespace VirtualPlc.Wasm

open VirtualPlc.Control

universe u

variable {κ : Type u}

/-- Types of the operands of the innermost construct, top first; `dead` after an unconditional
branch. -/
structure Operands where
  known : List ValType
  dead : Bool
deriving DecidableEq, Repr

/-- The operands at the start of a construct. -/
def Operands.empty : Operands := ⟨[], false⟩

/-- The operands after an unconditional branch. -/
def Operands.afterBranch : Operands := ⟨[], true⟩

/-- Add an operand. -/
def Operands.push (s : Operands) (t : ValType) : Operands := { s with known := t :: s.known }

/-- Add operands, the first deepest. -/
def Operands.pushAll (s : Operands) (ts : List ValType) : Operands :=
  { s with known := ts.reverse ++ s.known }

/-- Take an operand of type `t`. -/
def Operands.pop (s : Operands) (t : ValType) : Option Operands :=
  match s.known with
  | u :: rest => if u = t then some { s with known := rest } else none
  | [] => if s.dead then some s else none

/-- Take an operand of any type. -/
def Operands.popAny (s : Operands) : Option Operands :=
  match s.known with
  | _ :: rest => some { s with known := rest }
  | [] => if s.dead then some s else none

/-- Take operands of the given types, the first topmost. -/
def Operands.popAll : List ValType → Operands → Option Operands
  | [], s => some s
  | t :: ts, s => (s.pop t).bind (popAll ts)

/-- The construct may end here: nothing is left on its stack. -/
def Operands.closed (r : Option Operands) : Bool :=
  match r with
  | some s => s.known.isEmpty
  | none => false

/-- What a function body may refer to. -/
structure Context where
  locals : List ValType
  funcType : Nat → Option FuncType

/-- Operand types taken (topmost first) and type pushed by an operation with a fixed signature. -/
def Op.signature : Op → List ValType × List ValType
  | .const v => ([], [v.type])
  | .load t _ => ([.i32], [t])
  | .load8S _ => ([.i32], [.i32])
  | .load16S _ => ([.i32], [.i32])
  | .store t _ => ([t, .i32], [])
  | .store8 _ => ([.i32, .i32], [])
  | .store16 _ => ([.i32, .i32], [])
  | .i32Bin _ => ([.i32, .i32], [.i32])
  | .i64Bin _ => ([.i64, .i64], [.i64])
  | .f32Bin _ => ([.f32, .f32], [.f32])
  | .f64Bin _ => ([.f64, .f64], [.f64])
  | .i32Eqz => ([.i32], [.i32])
  | .i32Rel _ => ([.i32, .i32], [.i32])
  | .f32Rel _ => ([.f32, .f32], [.i32])
  | .f64Rel _ => ([.f64, .f64], [.i32])
  | .localGet _ | .localSet _ | .br _ | .brIf _ | .ret | .call _ | .drop => ([], [])

/-- Type one operation under `labels` enclosing labels, the function body included. -/
def checkOp (ctx : Context) (labels : Nat) (op : Op) (s : Operands) : Option Operands :=
  match op with
  | .localGet i => (ctx.locals[i]?).map s.push
  | .localSet i => (ctx.locals[i]?).bind s.pop
  | .br d => if d < labels then some .afterBranch else none
  | .brIf d => if d < labels then s.pop .i32 else none
  | .ret => some .afterBranch
  | .call i =>
    (ctx.funcType i).bind fun ft => (s.popAll ft.params.reverse).map (·.pushAll ft.results)
  | .drop => s.popAny
  | op => (s.popAll op.signature.1).map (·.pushAll op.signature.2)

mutual
/-- Type one construct. -/
def checkCode (ctx : Context) (labels : Nat) : Code Op κ → Operands → Option Operands
  | .op i, s => checkOp ctx labels i s
  | .probe _, s => some s
  | .block body, s =>
    if Operands.closed (checkSeq ctx (labels + 1) body .empty) then some s else none
  | .loop body, s =>
    if Operands.closed (checkSeq ctx (labels + 1) body .empty) then some s else none
  | .ifThen thn, s =>
    (s.pop .i32).bind fun s' =>
      if Operands.closed (checkSeq ctx (labels + 1) thn .empty) then some s' else none
  | .ifElse thn els, s =>
    (s.pop .i32).bind fun s' =>
      if Operands.closed (checkSeq ctx (labels + 1) thn .empty) &&
          Operands.closed (checkSeq ctx (labels + 1) els .empty) then some s' else none
/-- Type a sequence of constructs. -/
def checkSeq (ctx : Context) (labels : Nat) : List (Code Op κ) → Operands → Option Operands
  | [], s => some s
  | c :: cs, s => (checkCode ctx labels c s).bind (checkSeq ctx labels cs)
end

/-- The code of a function body with the given results is valid. -/
def checkBody (ctx : Context) (results : List ValType) (code : List (Code Op κ)) : Bool :=
  Operands.closed ((checkSeq ctx 1 code .empty).bind (Operands.popAll results.reverse))

/-- A function of the module is valid. -/
def Module.checkFunc (m : Module) (f : Func) : Bool :=
  match m.types[f.typeIndex]?, (parseBody f.body : Option (List (Code Op Unit))) with
  | some ft, some code => checkBody ⟨ft.params ++ f.locals, m.funcType⟩ ft.results code
  | _, _ => false

/-- An export refers to an item of the module. -/
def Module.checkExport (m : Module) (e : Export) : Bool :=
  match e.kind with
  | .func => decide (e.index < m.typeIndices.length)
  | .memory => decide (e.index = 0)

/-- The memory limits are well formed and within the 32-bit address space. -/
def MemoryType.check (t : MemoryType) : Bool :=
  decide (t.minimum ≤ 65536) &&
    match t.maximum with
    | none => true
    | some n => decide (t.minimum ≤ n ∧ n ≤ 65536)

/-- The module passes validation. -/
structure Module.Valid (m : Module) : Prop where
  imports : ∀ i ∈ m.imports, i.typeIndex < m.types.length
  funcs : ∀ f ∈ m.funcs, m.checkFunc f = true
  memory : m.memory.check = true
  exports : ∀ e ∈ m.exports, m.checkExport e = true
  distinct : (m.exports.map (·.name)).Nodup

/-! ## Equations -/

section Equations

variable (ctx : Context) (labels : Nat)

@[simp] theorem checkSeq_nil (s : Operands) :
    checkSeq ctx labels ([] : List (Code Op κ)) s = some s := rfl
@[simp] theorem checkSeq_cons (c : Code Op κ) (cs : List (Code Op κ)) (s : Operands) :
    checkSeq ctx labels (c :: cs) s =
      (checkCode ctx labels c s).bind (checkSeq ctx labels cs) := rfl

theorem checkSeq_singleton (c : Code Op κ) (s : Operands) :
    checkSeq ctx labels [c] s = checkCode ctx labels c s := by
  rw [checkSeq_cons]
  cases checkCode ctx labels c s <;> rfl

@[simp] theorem checkSeq_append (a b : List (Code Op κ)) (s : Operands) :
    checkSeq ctx labels (a ++ b) s = (checkSeq ctx labels a s).bind (checkSeq ctx labels b) := by
  induction a generalizing s with
  | nil => rfl
  | cons c cs ih =>
    rw [List.cons_append, checkSeq_cons, checkSeq_cons, Option.bind_assoc]
    exact congrArg _ (funext ih)

@[simp] theorem checkCode_op (i : Op) (s : Operands) :
    checkCode ctx labels (.op i : Code Op κ) s = checkOp ctx labels i s := rfl
@[simp] theorem checkCode_probe (k : κ) (s : Operands) :
    checkCode ctx labels (.probe k) s = some s := rfl

@[simp] theorem Operands.pop_cons (t u : ValType) (ts : List ValType) (b : Bool) :
    Operands.pop ⟨t :: ts, b⟩ u = if t = u then some ⟨ts, b⟩ else none := rfl

/-- Operands pushed last are taken first. -/
theorem Operands.popAll_known (ts rest : List ValType) (b : Bool) :
    Operands.popAll ts ⟨ts ++ rest, b⟩ = some ⟨rest, b⟩ := by
  induction ts with
  | nil => rfl
  | cons t ts ih => simpa [popAll] using ih

end Equations

mutual
theorem checkSeq_strip_code (ctx : Context) :
    ∀ (labels : Nat) (c : Code Op κ) (s : Operands),
      checkSeq ctx labels c.strip s = checkCode ctx labels c s
  | labels, .op i, s => checkSeq_singleton ctx labels (.op i) s
  | _, .probe _, _ => rfl
  | labels, .block body, s => by
    rw [Code.strip, checkSeq_singleton, checkCode, checkSeq_strip ctx (labels + 1) body, checkCode]
  | labels, .loop body, s => by
    rw [Code.strip, checkSeq_singleton, checkCode, checkSeq_strip ctx (labels + 1) body, checkCode]
  | labels, .ifThen thn, s => by
    rw [Code.strip, checkSeq_singleton, checkCode, checkSeq_strip ctx (labels + 1) thn, checkCode]
  | labels, .ifElse thn els, s => by
    rw [Code.strip, checkSeq_singleton, checkCode, checkSeq_strip ctx (labels + 1) thn,
      checkSeq_strip ctx (labels + 1) els, checkCode]
/-- Observations do not matter to validation. -/
theorem checkSeq_strip (ctx : Context) :
    ∀ (labels : Nat) (cs : List (Code Op κ)) (s : Operands),
      checkSeq ctx labels (strip cs) s = checkSeq ctx labels cs s
  | _, [], _ => rfl
  | labels, c :: cs, s => by
    rw [strip, checkSeq_append, checkSeq_strip_code ctx labels c s, checkSeq_cons]
    exact congrArg _ (funext (checkSeq_strip ctx labels cs))
end

universe v

variable {κ' : Type v}

mutual
theorem checkSeq_erase_code (ctx : Context) :
    ∀ (labels : Nat) (c : Code Op κ) (s : Operands),
      checkSeq ctx labels (c.erase : List (Code Op κ')) s = checkCode ctx labels c s
  | labels, .op i, s => checkSeq_singleton ctx labels (.op i) s
  | _, .probe _, _ => rfl
  | labels, .block body, s => by
    rw [Code.erase, checkSeq_singleton, checkCode, checkSeq_erase ctx (labels + 1) body, checkCode]
  | labels, .loop body, s => by
    rw [Code.erase, checkSeq_singleton, checkCode, checkSeq_erase ctx (labels + 1) body, checkCode]
  | labels, .ifThen thn, s => by
    rw [Code.erase, checkSeq_singleton, checkCode, checkSeq_erase ctx (labels + 1) thn, checkCode]
  | labels, .ifElse thn els, s => by
    rw [Code.erase, checkSeq_singleton, checkCode, checkSeq_erase ctx (labels + 1) thn,
      checkSeq_erase ctx (labels + 1) els, checkCode]
/-- Validation does not depend on the kind of the observations. -/
theorem checkSeq_erase (ctx : Context) :
    ∀ (labels : Nat) (cs : List (Code Op κ)) (s : Operands),
      checkSeq ctx labels (erase cs : List (Code Op κ')) s = checkSeq ctx labels cs s
  | _, [], _ => rfl
  | labels, c :: cs, s => by
    rw [erase, checkSeq_append, checkSeq_erase_code ctx labels c s, checkSeq_cons]
    exact congrArg _ (funext (checkSeq_erase ctx labels cs))
end

/-- The body of a function whose tokens are those of the code `cs`. -/
theorem checkFunc_flatten {m : Module} {f : Func} {ft : FuncType} {cs : List (Code Op κ)}
    (htype : m.types[f.typeIndex]? = some ft) (hbody : f.body = flatten cs ++ [.fin]) :
    m.checkFunc f = checkBody ⟨ft.params ++ f.locals, m.funcType⟩ ft.results cs := by
  have hparse : (parseBody f.body : Option (List (Code Op Unit))) = some (strip (erase cs)) := by
    rw [hbody, ← flatten_erase cs]
    exact parseBody_flatten _
  rw [Module.checkFunc, htype, hparse]
  show checkBody _ _ _ = _
  rw [checkBody, checkSeq_strip, checkSeq_erase, checkBody]

end VirtualPlc.Wasm

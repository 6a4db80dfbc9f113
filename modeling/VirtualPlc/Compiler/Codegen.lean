import VirtualPlc.Compiler.Ir
import VirtualPlc.Compiler.TypeChecker
import VirtualPlc.Wasm.Validate

/-!
# Code generation

The emitted module imports the five host functions, declares one memory, gives every function the
type without parameters and results, and exports the step functions and the memory. Calls are
resolved by name.
-/

set_option autoImplicit false

namespace VirtualPlc.Compiler

open VirtualPlc.Word VirtualPlc.Wasm VirtualPlc.Control

/-- The function types: step functions, digital and analog reads, writes, cycle time. -/
def defineTypes : List FuncType :=
  [⟨[], []⟩, ⟨[.i32], [.i32]⟩, ⟨[.i32, .i32], []⟩, ⟨[], [.i32]⟩]

/-- The imported host functions. -/
def importHostFunctions : List Import :=
  [⟨"plc", "read_di", 1⟩, ⟨"plc", "write_do", 2⟩, ⟨"plc", "read_ai", 1⟩, ⟨"plc", "write_ao", 2⟩,
    ⟨"plc", "get_cycle_time", 3⟩]

/-- Function indices by name; a later insertion is nearer the front. -/
structure WasmEmitter where
  hostFuncs : List (String × Nat)
  userFuncs : List (String × Nat)
deriving DecidableEq, Repr

/-- Indices of the functions named `names`, the first having index `first`. -/
def assignIndices (names : List String) (first : Nat) : List (String × Nat) :=
  (names.zipIdx first).reverse

/-- The emitter for a module: host functions come first in the index space. -/
def WasmEmitter.new (irModule : IrModule) : WasmEmitter :=
  ⟨assignIndices (importHostFunctions.map (·.name)) 0,
    assignIndices (irModule.functions.map (·.name)) importHostFunctions.length⟩

/-- Index of the function that a call refers to. -/
def WasmEmitter.resolve (e : WasmEmitter) (name : String) (isUserDefined : Bool) :
    Except Failure Nat :=
  if isUserDefined then
    match e.userFuncs.lookup name with
    | some i => .ok i
    | none => .error (.err ("Unknown user function: " ++ name))
  else
    match e.hostFuncs.lookup name with
    | some i => .ok i
    | none => .error (.err ("Unknown host function: " ++ name))

/-- The value type of a local. -/
def WasmType.valType : WasmType → ValType
  | .i32 => .i32
  | .i64 => .i64
  | .f32 => .f32
  | .f64 => .f64

/-- Emit one instruction. -/
def WasmEmitter.emitInstruction (e : WasmEmitter) : Instruction → Except Failure Instr
  | .i32Const v => .ok (.op (.const (.i32 v)))
  | .i64Const v => .ok (.op (.const (.i64 v)))
  | .f32Const v => .ok (.op (.const (.f32 v)))
  | .f64Const v => .ok (.op (.const (.f64 v)))
  | .i32Load offset => .ok (.op (.load .i32 offset))
  | .i64Load offset => .ok (.op (.load .i64 offset))
  | .f32Load offset => .ok (.op (.load .f32 offset))
  | .f64Load offset => .ok (.op (.load .f64 offset))
  | .i32Load8S offset => .ok (.op (.load8S offset))
  | .i32Load16S offset => .ok (.op (.load16S offset))
  | .i32Store offset => .ok (.op (.store .i32 offset))
  | .i64Store offset => .ok (.op (.store .i64 offset))
  | .f32Store offset => .ok (.op (.store .f32 offset))
  | .f64Store offset => .ok (.op (.store .f64 offset))
  | .i32Store8 offset => .ok (.op (.store8 offset))
  | .i32Store16 offset => .ok (.op (.store16 offset))
  | .localGet i => .ok (.op (.localGet i))
  | .localSet i => .ok (.op (.localSet i))
  | .i32Add => .ok (.op (.i32Bin .add))
  | .i32Sub => .ok (.op (.i32Bin .sub))
  | .i32Mul => .ok (.op (.i32Bin .mul))
  | .i32DivS => .ok (.op (.i32Bin .divS))
  | .i32RemS => .ok (.op (.i32Bin .remS))
  | .i64Add => .ok (.op (.i64Bin .add))
  | .i64Sub => .ok (.op (.i64Bin .sub))
  | .i64Mul => .ok (.op (.i64Bin .mul))
  | .i64DivS => .ok (.op (.i64Bin .divS))
  | .f32Add => .ok (.op (.f32Bin .add))
  | .f32Sub => .ok (.op (.f32Bin .sub))
  | .f32Mul => .ok (.op (.f32Bin .mul))
  | .f32Div => .ok (.op (.f32Bin .div))
  | .f64Add => .ok (.op (.f64Bin .add))
  | .f64Sub => .ok (.op (.f64Bin .sub))
  | .f64Mul => .ok (.op (.f64Bin .mul))
  | .f64Div => .ok (.op (.f64Bin .div))
  | .i32Eq => .ok (.op (.i32Rel .eq))
  | .i32Ne => .ok (.op (.i32Rel .ne))
  | .i32LtS => .ok (.op (.i32Rel .ltS))
  | .i32LeS => .ok (.op (.i32Rel .leS))
  | .i32GtS => .ok (.op (.i32Rel .gtS))
  | .i32GeS => .ok (.op (.i32Rel .geS))
  | .i32Eqz => .ok (.op .i32Eqz)
  | .f32Eq => .ok (.op (.f32Rel .eq))
  | .f32Lt => .ok (.op (.f32Rel .lt))
  | .f32Gt => .ok (.op (.f32Rel .gt))
  | .f64Eq => .ok (.op (.f64Rel .eq))
  | .i32And => .ok (.op (.i32Bin .and))
  | .i32Or => .ok (.op (.i32Bin .or))
  | .i32Xor => .ok (.op (.i32Bin .xor))
  | .i32Shl => .ok (.op (.i32Bin .shl))
  | .i32ShrS => .ok (.op (.i32Bin .shrS))
  | .br d => .ok (.op (.br d))
  | .brIf d => .ok (.op (.brIf d))
  | .block => .ok .block
  | .loop => .ok .loop
  | .fin => .ok .fin
  | .cond => .ok .cond
  | .els => .ok .els
  | .ret => .ok (.op .ret)
  | .callHost name => do
    let i ← e.resolve name false
    return .op (.call i)
  | .callUser name => do
    let i ← e.resolve name true
    return .op (.call i)
  | .drop => .ok (.op .drop)

/-- Emit instructions in order. -/
def WasmEmitter.emitInstructions (e : WasmEmitter) : List Instruction → Except Failure (List Instr)
  | [] => .ok []
  | i :: is => do
    let t ← e.emitInstruction i
    let ts ← e.emitInstructions is
    return t :: ts

/-- Emit a function; every function has type 0. -/
def WasmEmitter.emitFunction (e : WasmEmitter) (func : IrFunction) : Except Failure Func := do
  let body ← e.emitInstructions func.body
  return ⟨0, func.locals.map (·.wasmType.valType), body ++ [.fin]⟩

/-- Emit functions in order. -/
def WasmEmitter.emitFunctions (e : WasmEmitter) : List IrFunction → Except Failure (List Func)
  | [] => .ok []
  | func :: rest => do
    let f ← e.emitFunction func
    let fs ← e.emitFunctions rest
    return f :: fs

/-- Exports of the step functions, the first function having index `i`. -/
def exportSteps : List IrFunction → Nat → List Export
  | [], _ => []
  | func :: rest, i =>
    if func.isStep then ⟨"step", .func, i⟩ :: exportSteps rest (i + 1) else exportSteps rest (i + 1)

/-- Pages of the declared memory: the memory size rounded up, at least one. -/
def memoryPages (memorySize : Nat) : Nat := max ((memorySize + (pageSize - 1)) / pageSize) 1

/-- Emit a module. It has no data section. -/
def emit (irModule : IrModule) : Except Failure Wasm.Module := do
  let funcs ← (WasmEmitter.new irModule).emitFunctions irModule.functions
  let pages := memoryPages irModule.memorySize
  return {
    types := defineTypes
    imports := importHostFunctions
    funcs := funcs
    memory := ⟨pages, some pages⟩
    exports := exportSteps irModule.functions importHostFunctions.length ++ [⟨"memory", .memory, 0⟩]
    data := [] }

/-- Compile a compilation unit: check, lower, emit. -/
def compile (b : Build) (ast : CompilationUnit) : Except Failure Wasm.Module := do
  let typed ← check b ast
  emit (lower typed)

end VirtualPlc.Compiler

import VirtualPlc.Control.FlatCode

/-!
# WebAssembly modules

The fragment of WebAssembly with the four number types, one linear memory, direct calls and
constructs of empty block type. Function bodies are flat token sequences over the basic operations
`Op`. Floating-point constants are bit patterns.
-/

set_option autoImplicit false

namespace VirtualPlc.Wasm

open VirtualPlc.Control

/-- Number types. -/
inductive ValType where
  | i32
  | i64
  | f32
  | f64
deriving DecidableEq, Repr

/-- Runtime values; floating-point values are their bit patterns. -/
inductive Value where
  | i32 (v : BitVec 32)
  | i64 (v : BitVec 64)
  | f32 (v : BitVec 32)
  | f64 (v : BitVec 64)
deriving DecidableEq, Repr

/-- The type of a value. -/
def Value.type : Value → ValType
  | .i32 _ => .i32
  | .i64 _ => .i64
  | .f32 _ => .f32
  | .f64 _ => .f64

/-- The value of a type with all bits zero. -/
def ValType.zero : ValType → Value
  | .i32 => .i32 0
  | .i64 => .i64 0
  | .f32 => .f32 0
  | .f64 => .f64 0

/-- Bytes a value of the type takes in memory. -/
def ValType.width : ValType → Nat
  | .i32 => 4
  | .i64 => 8
  | .f32 => 4
  | .f64 => 8

/-- Integer operators. -/
inductive IntBin where
  | add
  | sub
  | mul
  | divS
  | remS
  | and
  | or
  | xor
  | shl
  | shrS
deriving DecidableEq, Repr

/-- Integer comparisons. -/
inductive IntRel where
  | eq
  | ne
  | ltS
  | leS
  | gtS
  | geS
deriving DecidableEq, Repr

/-- Floating-point operators. -/
inductive FloatBin where
  | add
  | sub
  | mul
  | div
deriving DecidableEq, Repr

/-- Floating-point comparisons. -/
inductive FloatRel where
  | eq
  | lt
  | gt
deriving DecidableEq, Repr

/-- Basic operations. `load8S` and `load16S` sign-extend to `i32`; `store8` and `store16` keep the
low bytes of an `i32`. -/
inductive Op where
  | const (v : Value)
  | load (t : ValType) (offset : Nat)
  | load8S (offset : Nat)
  | load16S (offset : Nat)
  | store (t : ValType) (offset : Nat)
  | store8 (offset : Nat)
  | store16 (offset : Nat)
  | localGet (index : Nat)
  | localSet (index : Nat)
  | i32Bin (o : IntBin)
  | i64Bin (o : IntBin)
  | f32Bin (o : FloatBin)
  | f64Bin (o : FloatBin)
  | i32Eqz
  | i32Rel (o : IntRel)
  | f32Rel (o : FloatRel)
  | f64Rel (o : FloatRel)
  | br (depth : Nat)
  | brIf (depth : Nat)
  | ret
  | call (function : Nat)
  | drop
deriving DecidableEq, Repr

/-- Instructions of a function body. -/
abbrev Instr := Token Op

/-- Function types. -/
structure FuncType where
  params : List ValType
  results : List ValType
deriving DecidableEq, Repr

/-- A function: type index, declared locals after the parameters, body closed by `fin`. -/
structure Func where
  typeIndex : Nat
  locals : List ValType
  body : List Instr
deriving DecidableEq, Repr

/-- An imported function. -/
structure Import where
  moduleName : String
  name : String
  typeIndex : Nat
deriving DecidableEq, Repr

/-- Kinds of exported items. -/
inductive ExportKind where
  | func
  | memory
deriving DecidableEq, Repr

/-- An export. -/
structure Export where
  name : String
  kind : ExportKind
  index : Nat
deriving DecidableEq, Repr

/-- Limits of the linear memory, in pages. -/
structure MemoryType where
  minimum : Nat
  maximum : Option Nat
deriving DecidableEq, Repr

/-- An active data segment of the linear memory. -/
structure DataSegment where
  offset : Nat
  bytes : List (BitVec 8)
deriving DecidableEq, Repr

/-- A module with imported functions, one memory and no tables, globals or start function. -/
structure Module where
  types : List FuncType
  imports : List Import
  funcs : List Func
  memory : MemoryType
  exports : List Export
  data : List DataSegment
deriving DecidableEq, Repr

/-- Bytes of a memory page. -/
def pageSize : Nat := 65536

/-- Type indices of the function index space: imports first. -/
def Module.typeIndices (m : Module) : List Nat :=
  m.imports.map (·.typeIndex) ++ m.funcs.map (·.typeIndex)

/-- Type of the function with the given index. -/
def Module.funcType (m : Module) (i : Nat) : Option FuncType :=
  m.typeIndices[i]?.bind (m.types[·]?)

end VirtualPlc.Wasm

import VirtualPlc.Compiler.TypedAst
import Mathlib.Data.BitVec

/-!
# Intermediate representation and lowering

Lowering appends instructions to the body of the current function and counts the enclosing loops.
Every lowering function maps a state of the lowerer to the next one. The instructions are those that
lowering emits; `u32` and `i32` immediates are natural numbers below `2 ^ 32` and bit vectors.
-/

set_option autoImplicit false

namespace VirtualPlc.Compiler

/-- Value types of locals. -/
inductive WasmType where
  | i32
  | i64
  | f32
  | f64
deriving DecidableEq, Repr

/-- A local variable. -/
structure LocalVar where
  name : String
  wasmType : WasmType
deriving DecidableEq, Repr

/-- Stack-based instructions. -/
inductive Instruction where
  | i32Const (v : BitVec 32)
  | i64Const (v : BitVec 64)
  | f32Const (bits : BitVec 32)
  | f64Const (bits : BitVec 64)
  | i32Load (offset : Nat)
  | i64Load (offset : Nat)
  | f32Load (offset : Nat)
  | f64Load (offset : Nat)
  | i32Load8S (offset : Nat)
  | i32Load16S (offset : Nat)
  | i32Store (offset : Nat)
  | i64Store (offset : Nat)
  | f32Store (offset : Nat)
  | f64Store (offset : Nat)
  | i32Store8 (offset : Nat)
  | i32Store16 (offset : Nat)
  | localGet (index : Nat)
  | localSet (index : Nat)
  | i32Add
  | i32Sub
  | i32Mul
  | i32DivS
  | i32RemS
  | i64Add
  | i64Sub
  | i64Mul
  | i64DivS
  | f32Add
  | f32Sub
  | f32Mul
  | f32Div
  | f64Add
  | f64Sub
  | f64Mul
  | f64Div
  | i32Eq
  | i32Ne
  | i32LtS
  | i32LeS
  | i32GtS
  | i32GeS
  | i32Eqz
  | f32Eq
  | f32Lt
  | f32Gt
  | f64Eq
  | i32And
  | i32Or
  | i32Xor
  | i32Shl
  | i32ShrS
  | br (depth : Nat)
  | brIf (depth : Nat)
  | block
  | loop
  | fin
  | cond
  | els
  | ret
  | callHost (name : String)
  | callUser (name : String)
  | drop
deriving DecidableEq, Repr

/-- A function; `isStep` marks the step function. -/
structure IrFunction where
  name : String
  isStep : Bool
  locals : List LocalVar
  body : List Instruction
deriving DecidableEq, Repr

/-- A module: functions, global data and the total memory size. -/
structure IrModule where
  functions : List IrFunction
  data : List (BitVec 8)
  memorySize : Nat
deriving DecidableEq, Repr

/-- State of the lowering. -/
structure IrLowerer where
  functions : List IrFunction
  currentBody : List Instruction
  currentLocals : List LocalVar
  loopDepth : Nat
  memorySize : Nat
deriving DecidableEq, Repr

/-- One step of the lowering. -/
abbrev Lower := IrLowerer → IrLowerer

/-- The initial state; the memory size is a fixed 4 KiB. -/
def IrLowerer.new : IrLowerer := ⟨[], [], [], 0, 0x1000⟩

/-- Append an instruction. -/
def push (i : Instruction) : Lower := fun s => { s with currentBody := s.currentBody ++ [i] }

/-- Append instructions. -/
def pushAll (is : List Instruction) : Lower :=
  fun s => { s with currentBody := s.currentBody ++ is }

/-- `x as u32`. -/
def asU32 (x : Nat) : Nat := x % 2 ^ 32

/-- Add a temporary local. -/
def allocTempLocal (ty : WasmType) : Lower := fun s =>
  { s with
    currentLocals := s.currentLocals ++ [⟨"__temp_" ++ toString s.currentLocals.length, ty⟩] }

/-! ## Loads, stores and operators -/

/-- The load for a type. -/
def emitLoad (ty : DataType) (offset : Nat) : Lower :=
  match ty with
  | .bool | .sint | .usint | .byte => push (.i32Load8S offset)
  | .int | .uint | .word => push (.i32Load16S offset)
  | .dint | .udint | .dword => push (.i32Load offset)
  | .lint | .ulint | .lword | .time => push (.i64Load offset)
  | .real => push (.f32Load offset)
  | .lreal => push (.f64Load offset)
  | _ => push (.i32Load offset)

/-- The store for a type. -/
def emitStore (ty : DataType) : Lower :=
  match ty with
  | .bool | .sint | .usint | .byte => push (.i32Store8 0)
  | .int | .uint | .word => push (.i32Store16 0)
  | .dint | .udint | .dword => push (.i32Store 0)
  | .lint | .ulint | .lword | .time => push (.i64Store 0)
  | .real => push (.f32Store 0)
  | .lreal => push (.f64Store 0)
  | _ => push (.i32Store 0)

/-- Choose between the four instructions of an arithmetic operator. -/
def selectWidth (isFloat is64 : Bool) (i32 i64 f32 f64 : Instruction) : Instruction :=
  if isFloat then (if is64 then f64 else f32) else if is64 then i64 else i32

/-- The instruction of a binary operator, chosen by the type of the left operand. -/
def emitBinaryOp (op : BinaryOp) (ty : DataType) : Lower :=
  let isFloat := ty = .real || ty = .lreal
  let is64 := ty = .lint || ty = .ulint || ty = .lreal || ty = .time
  match op with
  | .add => push (selectWidth isFloat is64 .i32Add .i64Add .f32Add .f64Add)
  | .sub => push (selectWidth isFloat is64 .i32Sub .i64Sub .f32Sub .f64Sub)
  | .mul => push (selectWidth isFloat is64 .i32Mul .i64Mul .f32Mul .f64Mul)
  | .div => push (selectWidth isFloat is64 .i32DivS .i64DivS .f32Div .f64Div)
  | .mod => push .i32RemS
  | .eq => push (selectWidth isFloat is64 .i32Eq .i32Eq .f32Eq .f64Eq)
  | .ne => push .i32Ne
  | .lt => push (if isFloat then .f32Lt else .i32LtS)
  | .le => push .i32LeS
  | .gt => push (if isFloat then .f32Gt else .i32GtS)
  | .ge => push .i32GeS
  | .and | .bitAnd => push .i32And
  | .or | .bitOr => push .i32Or
  | .xor | .bitXor => push .i32Xor
  | .shl => push .i32Shl
  | .shr => push .i32ShrS
  | .pow => push (.i32Const 1)

/-- Bits of the `f32` value -1. -/
def f32MinusOne : BitVec 32 := 0xBF800000

/-- Bits of the `f64` value -1. -/
def f64MinusOne : BitVec 64 := 0xBFF0000000000000

/-- The instructions of a unary operator. -/
def emitUnaryOp (op : UnaryOp) (ty : DataType) : Lower :=
  match op with
  | .neg =>
    match ty with
    | .real => pushAll [.f32Const f32MinusOne, .f32Mul]
    | .lreal => pushAll [.f64Const f64MinusOne, .f64Mul]
    | _ => pushAll [.i32Const 0, .i32Sub]
  | .not => pushAll [.i32Const 1, .i32Xor]

/-- The constant of a literal. -/
def lowerLiteral (lit : TypedLiteral) : Lower :=
  match lit with
  | .bool v => push (.i32Const (if v then 1 else 0))
  | .integer v bits =>
    if bits ≤ 32 then push (.i32Const (BitVec.ofInt 32 v)) else push (.i64Const (BitVec.ofInt 64 v))
  | .real32 v => push (.f32Const v)
  | .real64 v => push (.f64Const v)
  | .time ns => push (.i64Const (BitVec.ofInt 64 ns))

/-- Call a host or a user function. -/
def lowerCall (name : String) (isUserDefined : Bool) : Lower :=
  if isUserDefined then push (.callUser name) else push (.callHost name)

/-! ## Expressions -/

mutual
/-- Push the value of an expression. -/
def lowerExpr : TypedExpr → Lower
  | .literal lit _ => lowerLiteral lit
  | .variable _ offset ty => fun s => emitLoad ty (asU32 offset) (push (.i32Const 0) s)
  | .arrayAccess array index elementSize ty => fun s =>
    let s := lowerExpr index (pushAddress array s)
    emitLoad ty 0 (pushAll [.i32Const (BitVec.ofNat 32 elementSize), .i32Mul, .i32Add] s)
  | .fieldAccess object _ fieldOffset ty => fun s =>
    emitLoad ty (asU32 fieldOffset) (pushAddress object s)
  | .binary left op right _ => fun s =>
    emitBinaryOp op left.ty (lowerExpr right (lowerExpr left s))
  | .unary op operand _ => fun s => emitUnaryOp op operand.ty (lowerExpr operand s)
  | .call name arguments isUserDefined _ => fun s =>
    lowerCall name isUserDefined (lowerArguments arguments s)
/-- Push the address of an assignable expression. -/
def pushAddress : TypedExpr → Lower
  | .variable _ offset _ => push (.i32Const (BitVec.ofNat 32 offset))
  | .arrayAccess array index elementSize _ => fun s =>
    let s := lowerExpr index (pushAddress array s)
    pushAll [.i32Const (BitVec.ofNat 32 elementSize), .i32Mul, .i32Add] s
  | .literal .. | .fieldAccess .. | .binary .. | .unary .. | .call .. => push (.i32Const 0)
/-- Push the values of call arguments in order. -/
def lowerArguments : List TypedExpr → Lower
  | [] => id
  | e :: es => fun s => lowerArguments es (lowerExpr e s)
end

/-! ## Statements -/

/-- Enter a loop body: count the loop. -/
def enterLoop : Lower := fun s => { s with loopDepth := s.loopDepth + 1 }

/-- Leave a loop body. -/
def leaveLoop : Lower := fun s => { s with loopDepth := s.loopDepth - 1 }

/-- IF: each ELSIF opens a conditional in the second arm of the one before it. -/
def lowerIf (condition : TypedExpr) (thenBranch elsifs : Lower) (elsifCount : Nat)
    (elseBranch : Option Lower) : Lower := fun s =>
  let s := push .cond (lowerExpr condition s)
  let s := elsifs (thenBranch s)
  let s :=
    match elseBranch with
    | some stmts => stmts (push .els s)
    | none => s
  pushAll (List.replicate (elsifCount + 1) .fin) s

/-- FOR over the variable at `varOffset`. -/
def lowerFor (varOffset : Nat) (start stop : TypedExpr) (step : Option TypedExpr) (body : Lower) :
    Lower := fun s =>
  -- var := start
  let s := lowerExpr start (push (.i32Const 0) s)
  let s := pushAll [.i32Store (asU32 varOffset), .block, .loop] s
  let s := enterLoop s
  -- leave if var > stop
  let s := lowerExpr stop (pushAll [.i32Const 0, .i32Load (asU32 varOffset)] s)
  let s := pushAll [.i32GtS, .brIf 1] s
  let s := body s
  -- var := var + step
  let s := pushAll [.i32Const 0, .i32Const 0, .i32Load (asU32 varOffset)] s
  let s :=
    match step with
    | some e => lowerExpr e s
    | none => push (.i32Const 1) s
  let s := pushAll [.i32Add, .i32Store (asU32 varOffset), .br 0] s
  pushAll [.fin, .fin] (leaveLoop s)

/-- WHILE. -/
def lowerWhile (condition : TypedExpr) (body : Lower) : Lower := fun s =>
  let s := enterLoop (pushAll [.block, .loop] s)
  let s := pushAll [.i32Eqz, .brIf 1] (lowerExpr condition s)
  let s := push (.br 0) (body s)
  pushAll [.fin, .fin] (leaveLoop s)

/-- REPEAT. -/
def lowerRepeat (body : Lower) (untilCond : TypedExpr) : Lower := fun s =>
  let s := enterLoop (pushAll [.block, .loop] s)
  let s := pushAll [.brIf 1, .br 0] (lowerExpr untilCond (body s))
  pushAll [.fin, .fin] (leaveLoop s)

/-- Compare the selector of a CASE with one label. -/
def caseTest (selectorLocal : Nat) (value : Int) : List Instruction :=
  [.localGet selectorLocal, .i32Const (BitVec.ofInt 32 value), .i32Eq]

/-- The condition of a CASE branch: the selector equals one of the labels. -/
def caseCondition (selectorLocal : Nat) : List Int → List Instruction
  | [] => []
  | v :: vs => caseTest selectorLocal v ++ vs.flatMap fun w => caseTest selectorLocal w ++ [.i32Or]

/-- The branches of a CASE that have a label. -/
def validBranches (branches : List (List Int × List TypedStatement)) : Nat :=
  branches.countP fun branch => !branch.1.isEmpty

/-- CASE: an if-else chain over the branches that have a label. -/
def lowerCase (selector : TypedExpr) (branches : Nat → Lower) (valid : Nat)
    (elseBranch : Option Lower) : Lower := fun s =>
  let selectorLocal := s.currentLocals.length
  let s := lowerExpr selector (allocTempLocal .i32 s)
  let s := branches selectorLocal (push (.localSet selectorLocal) s)
  let s :=
    match elseBranch with
    | some stmts => stmts (if valid = 0 then s else push .els s)
    | none => s
  pushAll (List.replicate valid .fin) s

mutual
/-- Lower a statement. -/
def lowerStatement : TypedStatement → Lower
  | .assignment target value => fun s =>
    emitStore target.ty (lowerExpr value (pushAddress target s))
  | .ifStmt condition thenBranch elsifBranches elseBranch =>
    lowerIf condition (lowerStatements thenBranch) (lowerElsifs elsifBranches) elsifBranches.length
      (match elseBranch with
        | some stmts => some (lowerStatements stmts)
        | none => none)
  | .forStmt _ varOffset start stop step body =>
    lowerFor varOffset start stop step (lowerStatements body)
  | .whileStmt condition body => lowerWhile condition (lowerStatements body)
  | .repeatStmt body untilCond => lowerRepeat (lowerStatements body) untilCond
  | .caseStmt selector branches elseBranch =>
    lowerCase selector (lowerBranches branches true) (validBranches branches)
      (match elseBranch with
        | some stmts => some (lowerStatements stmts)
        | none => none)
  | .exitStmt => fun s => push (.br s.loopDepth) s
  | .continueStmt => push (.br 0)
  | .returnStmt value => fun s =>
    push .ret (match value with
      | some e => lowerExpr e s
      | none => s)
  | .callStmt name arguments isUserDefined => fun s =>
    push .drop (lowerCall name isUserDefined (lowerArguments arguments s))
  | .empty => id
/-- Lower statements in order. -/
def lowerStatements : List TypedStatement → Lower
  | [] => id
  | stmt :: rest => fun s => lowerStatements rest (lowerStatement stmt s)
/-- Lower ELSIF branches. -/
def lowerElsifs : List (TypedExpr × List TypedStatement) → Lower
  | [] => id
  | (condition, stmts) :: rest => fun s =>
    let s := push .cond (lowerExpr condition (push .els s))
    lowerElsifs rest (lowerStatements stmts s)
/-- Lower the branches of a CASE that have a label; all but the first follow an `els`. -/
def lowerBranches : List (List Int × List TypedStatement) → Bool → Nat → Lower
  | [], _, _ => id
  | ([], _) :: rest, first, selectorLocal => lowerBranches rest first selectorLocal
  | (v :: vs, stmts) :: rest, first, selectorLocal => fun s =>
    let s := if first then s else push .els s
    let s := pushAll (caseCondition selectorLocal (v :: vs) ++ [.cond]) s
    lowerBranches rest false selectorLocal (lowerStatements stmts s)
end

/-! ## POUs -/

/-- Lower the statements of a POU into a function of the given name. -/
def lowerBody (name : String) (isStep : Bool) (body : List TypedStatement) : Lower := fun s =>
  let s := { s with currentBody := [], currentLocals := [] }
  let s := lowerStatements body s
  { s with
    functions := s.functions ++ [⟨name, isStep, s.currentLocals, s.currentBody⟩]
    currentBody := []
    currentLocals := [] }

/-- A PROGRAM becomes the function `step`. -/
def lowerProgram (program : TypedProgram) : Lower := lowerBody "step" true program.body

/-- Lower a FUNCTION_BLOCK. -/
def lowerFunctionBlock (fb : TypedFunctionBlock) : Lower := lowerBody fb.name false fb.body

/-- Lower a FUNCTION. -/
def lowerFunction (func : TypedFunction) : Lower := lowerBody func.name false func.body

/-- Lower a POU. -/
def lowerPou (pou : TypedPou) : Lower :=
  match pou with
  | .program p => lowerProgram p
  | .functionBlock fb => lowerFunctionBlock fb
  | .function f => lowerFunction f

/-- Lower a compilation unit. -/
def lower (typed : TypedUnit) : IrModule :=
  let s := typed.units.foldl (fun s pou => lowerPou pou s) IrLowerer.new
  ⟨s.functions, [], s.memorySize⟩

end VirtualPlc.Compiler

import VirtualPlc.Compiler.Codegen

/-!
# Block structure of the generated code

`exprCode` and `stmtCode` are the trees of the code that lowering and code generation make of typed
expressions and statements. They add one thing to it, an observation of the declared bounds wherever
an array is indexed.
-/

set_option autoImplicit false

namespace VirtualPlc.Compiler

open VirtualPlc.Word VirtualPlc.Wasm VirtualPlc.Control

/-- Declared bounds of the array that is being indexed. -/
structure Bounds where
  lower : Int
  upper : Int
deriving DecidableEq, Repr

/-- Code with observations of array bounds. -/
abbrev PlcCode := List (Code Op Bounds)

/-- A sequence of basic operations. -/
def ops (os : List Op) : PlcCode := os.map .op

/-! ## Expressions -/

/-- The load for a type. -/
def loadOp (ty : DataType) (offset : Nat) : Op :=
  match ty with
  | .bool | .sint | .usint | .byte => .load8S offset
  | .int | .uint | .word => .load16S offset
  | .dint | .udint | .dword => .load .i32 offset
  | .lint | .ulint | .lword | .time => .load .i64 offset
  | .real => .load .f32 offset
  | .lreal => .load .f64 offset
  | _ => .load .i32 offset

/-- The store for a type. -/
def storeOp (ty : DataType) : Op :=
  match ty with
  | .bool | .sint | .usint | .byte => .store8 0
  | .int | .uint | .word => .store16 0
  | .dint | .udint | .dword => .store .i32 0
  | .lint | .ulint | .lword | .time => .store .i64 0
  | .real => .store .f32 0
  | .lreal => .store .f64 0
  | _ => .store .i32 0

/-- Choose between the four operations of an arithmetic operator. -/
def selectOp (ty : DataType) (i32 i64 f32 f64 : Op) : Op :=
  if ty = .real then f32
  else if ty = .lreal then f64
  else if ty = .lint ∨ ty = .ulint ∨ ty = .time then i64
  else i32

/-- The operation of a binary operator on operands of the given type. -/
def binaryOp (op : BinaryOp) (ty : DataType) : Op :=
  match op with
  | .add => selectOp ty (.i32Bin .add) (.i64Bin .add) (.f32Bin .add) (.f64Bin .add)
  | .sub => selectOp ty (.i32Bin .sub) (.i64Bin .sub) (.f32Bin .sub) (.f64Bin .sub)
  | .mul => selectOp ty (.i32Bin .mul) (.i64Bin .mul) (.f32Bin .mul) (.f64Bin .mul)
  | .div => selectOp ty (.i32Bin .divS) (.i64Bin .divS) (.f32Bin .div) (.f64Bin .div)
  | .mod => .i32Bin .remS
  | .eq => selectOp ty (.i32Rel .eq) (.i32Rel .eq) (.f32Rel .eq) (.f64Rel .eq)
  | .ne => .i32Rel .ne
  | .lt => selectOp ty (.i32Rel .ltS) (.i32Rel .ltS) (.f32Rel .lt) (.f32Rel .lt)
  | .le => .i32Rel .leS
  | .gt => selectOp ty (.i32Rel .gtS) (.i32Rel .gtS) (.f32Rel .gt) (.f32Rel .gt)
  | .ge => .i32Rel .geS
  | .and | .bitAnd => .i32Bin .and
  | .or | .bitOr => .i32Bin .or
  | .xor | .bitXor => .i32Bin .xor
  | .shl => .i32Bin .shl
  | .shr => .i32Bin .shrS
  | .pow => .const (.i32 1)

/-- The operations of a unary operator on an operand of the given type. -/
def unaryOps (op : UnaryOp) (ty : DataType) : List Op :=
  match op with
  | .neg =>
    match ty with
    | .real => [.const (.f32 f32MinusOne), .f32Bin .mul]
    | .lreal => [.const (.f64 f64MinusOne), .f64Bin .mul]
    | _ => [.const (.i32 0), .i32Bin .sub]
  | .not => [.const (.i32 1), .i32Bin .xor]

/-- The constant of a literal. -/
def literalValue (lit : TypedLiteral) : Value :=
  match lit with
  | .bool v => .i32 (if v then 1 else 0)
  | .integer v bits => if bits ≤ 32 then .i32 (BitVec.ofInt 32 v) else .i64 (BitVec.ofInt 64 v)
  | .real32 v => .f32 v
  | .real64 v => .f64 v
  | .time ns => .i64 (BitVec.ofInt 64 ns)

/-- Observe that the index on the stack is within the bounds of an array of type `ty`. -/
def indexProbe (ty : DataType) : PlcCode :=
  match ty with
  | .array lower upper _ => [.probe ⟨lower, upper⟩]
  | _ => []

/-- Add the index on the stack, scaled by the element size, to the address below it. -/
def scaleCode (elementSize : Nat) : PlcCode :=
  ops [.const (.i32 (BitVec.ofNat 32 elementSize)), .i32Bin .mul, .i32Bin .add]

mutual
/-- Code of an expression; `link` gives the index of a called function. -/
def exprCode (link : String → Bool → Nat) : TypedExpr → PlcCode
  | .literal lit _ => ops [.const (literalValue lit)]
  | .variable _ offset ty => ops [.const (.i32 0), loadOp ty (asU32 offset)]
  | .arrayAccess array index elementSize ty =>
    addressCode link array ++ (exprCode link index ++ (indexProbe array.ty ++
      (scaleCode elementSize ++ ops [loadOp ty 0])))
  | .fieldAccess object _ fieldOffset ty =>
    addressCode link object ++ ops [loadOp ty (asU32 fieldOffset)]
  | .binary left op right _ =>
    exprCode link left ++ (exprCode link right ++ ops [binaryOp op left.ty])
  | .unary op operand _ => exprCode link operand ++ ops (unaryOps op operand.ty)
  | .call name arguments isUserDefined _ =>
    argumentsCode link arguments ++ ops [.call (link name isUserDefined)]
/-- Code of the address of an assignable expression. -/
def addressCode (link : String → Bool → Nat) : TypedExpr → PlcCode
  | .variable _ offset _ => ops [.const (.i32 (BitVec.ofNat 32 offset))]
  | .arrayAccess array index elementSize _ =>
    addressCode link array ++ (exprCode link index ++ (indexProbe array.ty ++
      scaleCode elementSize))
  | .literal .. | .fieldAccess .. | .binary .. | .unary .. | .call .. => ops [.const (.i32 0)]
/-- Code of call arguments. -/
def argumentsCode (link : String → Bool → Nat) : List TypedExpr → PlcCode
  | [] => []
  | e :: es => exprCode link e ++ argumentsCode link es
end

mutual
/-- The calls in the code of an expression. -/
def exprCalls : TypedExpr → List (String × Bool)
  | .literal .. => []
  | .variable .. => []
  | .arrayAccess array index _ _ => addressCalls array ++ exprCalls index
  | .fieldAccess object _ _ _ => addressCalls object
  | .binary left _ right _ => exprCalls left ++ exprCalls right
  | .unary _ operand _ => exprCalls operand
  | .call name arguments isUserDefined _ => argumentsCalls arguments ++ [(name, isUserDefined)]
/-- The calls in the code of an address. -/
def addressCalls : TypedExpr → List (String × Bool)
  | .arrayAccess array index _ _ => addressCalls array ++ exprCalls index
  | .literal .. | .variable .. | .fieldAccess .. | .binary .. | .unary .. | .call .. => []
/-- The calls in the code of call arguments. -/
def argumentsCalls : List TypedExpr → List (String × Bool)
  | [] => []
  | e :: es => exprCalls e ++ argumentsCalls es
end

/-! ## Statements -/

/-- A conditional with an optional second arm. -/
def condCode (thn : PlcCode) (els : Option PlcCode) : Code Op Bounds :=
  match els with
  | some els => .ifElse thn els
  | none => .ifThen thn

/-- Compare the selector of a CASE with one label. -/
def caseTestOps (selectorLocal : Nat) (value : Int) : List Op :=
  [.localGet selectorLocal, .const (.i32 (BitVec.ofInt 32 value)), .i32Rel .eq]

/-- The condition of a CASE branch. -/
def caseConditionOps (selectorLocal : Nat) : List Int → List Op
  | [] => []
  | v :: vs =>
    caseTestOps selectorLocal v ++
      vs.flatMap fun w => caseTestOps selectorLocal w ++ [.i32Bin .or]

/-- A FOR around the code of its expressions and its body. -/
def forCode (offset : Nat) (start stop step body : PlcCode) : PlcCode :=
  ops [.const (.i32 0)] ++ (start ++ (ops [.store .i32 offset] ++ [.block [.loop (
    ops [.const (.i32 0), .load .i32 offset] ++ (stop ++ (ops [.i32Rel .gtS, .brIf 1] ++ (body ++
      (ops [.const (.i32 0), .const (.i32 0), .load .i32 offset] ++ (step ++
        ops [.i32Bin .add, .store .i32 offset, .br 0]))))))]]))

/-- The step of a FOR; the default is 1. -/
def stepCode (link : String → Bool → Nat) (step : Option TypedExpr) : PlcCode :=
  match step with
  | some e => exprCode link e
  | none => ops [.const (.i32 1)]

/-- A WHILE around its condition and its body. -/
def whileCode (condition body : PlcCode) : PlcCode :=
  [.block [.loop (condition ++ (ops [.i32Eqz, .brIf 1] ++ (body ++ ops [.br 0])))]]

/-- A REPEAT around its body and its condition. -/
def repeatCode (body untilCond : PlcCode) : PlcCode :=
  [.block [.loop (body ++ (untilCond ++ ops [.brIf 1, .br 0]))]]

/-- The value of a RETURN. -/
def returnCode (link : String → Bool → Nat) (value : Option TypedExpr) : PlcCode :=
  match value with
  | some e => exprCode link e
  | none => []

mutual
/-- Number of CASE statements in the code of a statement. -/
def stmtLocals : TypedStatement → Nat
  | .ifStmt _ thenBranch elsifBranches elseBranch =>
    stmtsLocals thenBranch + (elsifsLocals elsifBranches +
      (match elseBranch with
        | some stmts => stmtsLocals stmts
        | none => 0))
  | .forStmt _ _ _ _ _ body => stmtsLocals body
  | .whileStmt _ body => stmtsLocals body
  | .repeatStmt body _ => stmtsLocals body
  | .caseStmt _ branches elseBranch =>
    1 + (branchesLocals branches +
      (match elseBranch with
        | some stmts => stmtsLocals stmts
        | none => 0))
  | .assignment .. | .exitStmt | .continueStmt | .returnStmt _ | .callStmt .. | .empty => 0
/-- Number of CASE statements in the code of a statement list. -/
def stmtsLocals : List TypedStatement → Nat
  | [] => 0
  | stmt :: rest => stmtLocals stmt + stmtsLocals rest
/-- Number of CASE statements in the code of ELSIF branches. -/
def elsifsLocals : List (TypedExpr × List TypedStatement) → Nat
  | [] => 0
  | (_, stmts) :: rest => stmtsLocals stmts + elsifsLocals rest
/-- Number of CASE statements in the code of CASE branches. -/
def branchesLocals : List (List Int × List TypedStatement) → Nat
  | [] => 0
  | ([], _) :: rest => branchesLocals rest
  | (_ :: _, stmts) :: rest => stmtsLocals stmts + branchesLocals rest
end

mutual
/-- Code of a statement under `depth` loops of the function, with `base` temporaries before it. -/
def stmtCode (link : String → Bool → Nat) : TypedStatement → Nat → Nat → PlcCode
  | .assignment target value, _, _ =>
    addressCode link target ++ (exprCode link value ++ ops [storeOp target.ty])
  | .ifStmt condition thenBranch elsifBranches elseBranch, depth, base =>
    exprCode link condition ++
      [condCode (stmtsCode link thenBranch depth base)
        (elsifsCode link elsifBranches depth (base + stmtsLocals thenBranch)
          (match elseBranch with
            | some stmts => some (stmtsCode link stmts depth
                (base + stmtsLocals thenBranch + elsifsLocals elsifBranches))
            | none => none))]
  | .forStmt _ varOffset start stop step body, depth, base =>
    forCode (asU32 varOffset) (exprCode link start) (exprCode link stop) (stepCode link step)
      (stmtsCode link body (depth + 1) base)
  | .whileStmt condition body, depth, base =>
    whileCode (exprCode link condition) (stmtsCode link body (depth + 1) base)
  | .repeatStmt body untilCond, depth, base =>
    repeatCode (stmtsCode link body (depth + 1) base) (exprCode link untilCond)
  | .caseStmt selector branches elseBranch, depth, base =>
    exprCode link selector ++ (ops [.localSet base] ++
      (branchesCode link branches depth (base + 1) base
        (match elseBranch with
          | some stmts => some (stmtsCode link stmts depth (base + 1 + branchesLocals branches))
          | none => none)).getD [])
  | .exitStmt, depth, _ => ops [.br depth]
  | .continueStmt, _, _ => ops [.br 0]
  | .returnStmt value, _, _ => returnCode link value ++ ops [.ret]
  | .callStmt name arguments isUserDefined, _, _ =>
    argumentsCode link arguments ++ ops [.call (link name isUserDefined), .drop]
  | .empty, _, _ => []
/-- Code of statements in order. -/
def stmtsCode (link : String → Bool → Nat) : List TypedStatement → Nat → Nat → PlcCode
  | [], _, _ => []
  | stmt :: rest, depth, base =>
    stmtCode link stmt depth base ++ stmtsCode link rest depth (base + stmtLocals stmt)
/-- Second arm of an IF: its ELSIF branches around `els`. -/
def elsifsCode (link : String → Bool → Nat) : List (TypedExpr × List TypedStatement) → Nat → Nat →
    Option PlcCode → Option PlcCode
  | [], _, _, els => els
  | (condition, stmts) :: rest, depth, base, els =>
    some (exprCode link condition ++
      [condCode (stmtsCode link stmts depth base)
        (elsifsCode link rest depth (base + stmtsLocals stmts) els)])
/-- The chain of CASE branches around `els`. -/
def branchesCode (link : String → Bool → Nat) : List (List Int × List TypedStatement) → Nat → Nat →
    Nat → Option PlcCode → Option PlcCode
  | [], _, _, _, els => els
  | ([], _) :: rest, depth, base, sel, els => branchesCode link rest depth base sel els
  | (v :: vs, stmts) :: rest, depth, base, sel, els =>
    some (ops (caseConditionOps sel (v :: vs)) ++
      [condCode (stmtsCode link stmts depth base)
        (branchesCode link rest depth (base + stmtsLocals stmts) sel els)])
end

mutual
/-- The calls in the code of a statement. -/
def stmtCalls : TypedStatement → List (String × Bool)
  | .assignment target value => addressCalls target ++ exprCalls value
  | .ifStmt condition thenBranch elsifBranches elseBranch =>
    exprCalls condition ++ (stmtsCalls thenBranch ++ (elsifsCalls elsifBranches ++
      (match elseBranch with
        | some stmts => stmtsCalls stmts
        | none => [])))
  | .forStmt _ _ start stop step body =>
    exprCalls start ++ (exprCalls stop ++ (stmtsCalls body ++
      (match step with
        | some e => exprCalls e
        | none => [])))
  | .whileStmt condition body => exprCalls condition ++ stmtsCalls body
  | .repeatStmt body untilCond => stmtsCalls body ++ exprCalls untilCond
  | .caseStmt selector branches elseBranch =>
    exprCalls selector ++ (branchesCalls branches ++
      (match elseBranch with
        | some stmts => stmtsCalls stmts
        | none => []))
  | .returnStmt value =>
    match value with
    | some e => exprCalls e
    | none => []
  | .callStmt name arguments isUserDefined => argumentsCalls arguments ++ [(name, isUserDefined)]
  | .exitStmt | .continueStmt | .empty => []
/-- The calls in the code of statements. -/
def stmtsCalls : List TypedStatement → List (String × Bool)
  | [] => []
  | stmt :: rest => stmtCalls stmt ++ stmtsCalls rest
/-- The calls in the code of ELSIF branches. -/
def elsifsCalls : List (TypedExpr × List TypedStatement) → List (String × Bool)
  | [] => []
  | (condition, stmts) :: rest => exprCalls condition ++ (stmtsCalls stmts ++ elsifsCalls rest)
/-- The calls in the code of CASE branches. -/
def branchesCalls : List (List Int × List TypedStatement) → List (String × Bool)
  | [] => []
  | ([], _) :: rest => branchesCalls rest
  | (_ :: _, stmts) :: rest => stmtsCalls stmts ++ branchesCalls rest
end

end VirtualPlc.Compiler

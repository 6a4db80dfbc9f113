import VirtualPlc.Compiler.TypedAst

/-!
# Type checker

Resolves names, computes types and assigns each variable its offset. Checking is parametric in the
build profile because sizes and offsets are computed in machine arithmetic.
-/

set_option autoImplicit false

namespace VirtualPlc.Compiler

open VirtualPlc.Word

/-- State of the type checker. -/
structure TypeChecker where
  symbols : SymbolTable
  nextOffset : Nat
  functions : List (String × FunctionSignature)
deriving Repr

/-- First address after the process image and the system information. -/
def reservedBytes : Nat := 0x100

/-- The symbol table of a new scope. -/
def SymbolTable.default : SymbolTable := ⟨[], []⟩

/-- Signatures of the host functions; a later insertion is nearer the front. -/
def hostSignatures : List (String × FunctionSignature) :=
  [("get_cycle_time", ⟨"get_cycle_time", .int, [], false⟩),
    ("write_ao", ⟨"write_ao", .bool, [.int, .int], false⟩),
    ("read_ai", ⟨"read_ai", .int, [.int], false⟩),
    ("write_do", ⟨"write_do", .bool, [.int, .int], false⟩),
    ("read_di", ⟨"read_di", .int, [.int], false⟩)]

/-- A type checker that knows the host functions. -/
def TypeChecker.new : TypeChecker := ⟨.default, reservedBytes, hostSignatures⟩

/-- Evaluate now, so that a panic happens now, but report an error later. -/
def hold {α : Type} : Except Failure α → Except Failure (Except Failure α)
  | .error (.panic message) => .error (.panic message)
  | r => .ok r

/-! ## Types -/

/-- Result type of arithmetic. -/
def numericPromotion (left right : DataType) : DataType :=
  if left = .lreal ∨ right = .lreal then .lreal
  else if left = .real ∨ right = .real then .real
  else if left = .lint ∨ right = .lint then .lint
  else if left = .dint ∨ right = .dint then .dint
  else .int

/-- Result type of a binary operator. -/
def binaryResultType (left : DataType) (op : BinaryOp) (right : DataType) :
    Except Failure DataType :=
  match op with
  | .eq | .ne | .lt | .le | .gt | .ge => .ok .bool
  | .and | .or | .xor =>
    if left = .bool ∧ right = .bool then .ok .bool
    else .error (.err "Logical operators require BOOL operands")
  | .add | .sub | .mul | .div | .mod | .pow => .ok (numericPromotion left right)
  | .bitAnd | .bitOr | .bitXor | .shl | .shr => .ok left

/-- An assignment needs equal types or two numeric types. -/
def checkAssignmentTypes (target source : DataType) : Except Failure Unit :=
  if target = source then .ok ()
  else if target.isNumeric && source.isNumeric then .ok ()
  else .error (.err ("Cannot assign " ++ source.display ++ " to " ++ target.display))

/-- A condition is of type BOOL. -/
def expectBool (ty : DataType) : Except Failure Unit :=
  if ty = .bool then .ok () else .error (.err ("Expected BOOL, got " ++ ty.display))

/-- The value of a CASE label. -/
def exprToConst : Expression → Except Failure Int
  | .literal (.integer n) => .ok n
  | _ => .error (.err "Expected constant expression")

/-! ## Expressions -/

/-- Bit width of an integer literal. -/
def literalBits (v : Int) : Nat :=
  if -128 ≤ v ∧ v ≤ 127 then 8
  else if -32768 ≤ v ∧ v ≤ 32767 then 16
  else if -2147483648 ≤ v ∧ v ≤ 2147483647 then 32
  else 64

/-- Type of an integer literal of the given width. -/
def literalType (bits : Nat) : DataType :=
  match bits with
  | 8 => .sint
  | 16 => .int
  | 32 => .dint
  | 64 => .lint
  | _ => .dint

/-- Type a literal. -/
def checkLiteral (lit : Literal) : Except Failure TypedExpr :=
  match lit with
  | .bool v => .ok (.literal (.bool v) .bool)
  | .integer v => .ok (.literal (.integer v (literalBits v)) (literalType (literalBits v)))
  | .real v => .ok (.literal (.real64 v) .lreal)
  | .time ns => .ok (.literal (.time ns) .time)
  | .string s => .ok (.literal (.bool false) (.string (some s.utf8ByteSize)))
  | .date .. | .timeOfDay _ | .dateTime .. => .error (.err "Unsupported literal type")

/-- Resolve a variable. -/
def TypeChecker.checkVariable (tc : TypeChecker) (name : String) : Except Failure TypedExpr :=
  match tc.symbols.vars.lookup name with
  | none => .error (.err ("Undefined variable: " ++ name))
  | some info => .ok (.variable name info.offset info.dataType)

/-- Resolve a callable. -/
def TypeChecker.checkCallee (tc : TypeChecker) (name : String) : Except Failure FunctionSignature :=
  match tc.functions.lookup name with
  | none => .error (.err ("Unknown function: " ++ name))
  | some sig => .ok sig

/-- Element type and element size of an indexed type. -/
def checkElement (b : Build) (ty : DataType) : Except Failure (DataType × Nat) :=
  match ty with
  | .array _ _ elementType => do
    let size ← elementType.sizeBytes b
    return (elementType, size.getD 4)
  | _ => .error (.err "Cannot index non-array type")

/-- Type of a unary operation; NOT needs BOOL. -/
def checkUnary (op : UnaryOp) (ty : DataType) : Except Failure DataType :=
  match op with
  | .not => do
    expectBool ty
    return .bool
  | .neg => .ok ty

mutual
/-- Type an expression. -/
def TypeChecker.checkExpr (b : Build) (tc : TypeChecker) : Expression → Except Failure TypedExpr
  | .literal lit => checkLiteral lit
  | .variable name => tc.checkVariable name
  | .arrayAccess array index => do
    let arr ← tc.checkExpr b array
    let idx ← tc.checkExpr b index
    let (elemType, elemSize) ← checkElement b arr.ty
    return .arrayAccess arr idx elemSize elemType
  | .fieldAccess object field => do
    let obj ← tc.checkExpr b object
    return .fieldAccess obj field 0 .int
  | .binary left op right => do
    let l ← tc.checkExpr b left
    let r ← tc.checkExpr b right
    let resultType ← binaryResultType l.ty op r.ty
    return .binary l op r resultType
  | .unary op operand => do
    let operandTyped ← tc.checkExpr b operand
    let resultType ← checkUnary op operandTyped.ty
    return .unary op operandTyped resultType
  | .call name arguments => do
    -- an unknown name is reported before an error in an argument
    let args ← hold (tc.checkArguments b arguments)
    let sig ← tc.checkCallee name
    let args ← args
    return .call name args sig.isUserDefined sig.returnType
  | .paren inner => tc.checkExpr b inner
/-- Type call arguments in order. -/
def TypeChecker.checkArguments (b : Build) (tc : TypeChecker) :
    List (Option String × Expression) → Except Failure (List TypedExpr)
  | [] => .ok []
  | (_, value) :: rest => do
    let e ← tc.checkExpr b value
    let es ← tc.checkArguments b rest
    return e :: es
end

/-- Type an optional expression. -/
def TypeChecker.checkOptional (b : Build) (tc : TypeChecker) :
    Option Expression → Except Failure (Option TypedExpr)
  | none => .ok none
  | some e => do
    let t ← tc.checkExpr b e
    return some t

section Expressions

variable {b : Build} {tc : TypeChecker}

theorem checkExpr_binary {left right : Expression} {op : BinaryOp} {t : TypedExpr}
    (h : tc.checkExpr b (.binary left op right) = .ok t) :
    ∃ l r ty, tc.checkExpr b left = .ok l ∧ tc.checkExpr b right = .ok r ∧
      binaryResultType l.ty op r.ty = .ok ty ∧ t = .binary l op r ty := by
  rw [TypeChecker.checkExpr] at h
  obtain ⟨l, hl, h⟩ := bind_eq_ok.1 h
  obtain ⟨r, hr, h⟩ := bind_eq_ok.1 h
  obtain ⟨ty, hty, h⟩ := bind_eq_ok.1 h
  cases h
  exact ⟨l, r, ty, hl, hr, hty, rfl⟩

theorem checkExpr_unary {operand : Expression} {op : UnaryOp} {t : TypedExpr}
    (h : tc.checkExpr b (.unary op operand) = .ok t) :
    ∃ x ty, tc.checkExpr b operand = .ok x ∧ checkUnary op x.ty = .ok ty ∧
      t = .unary op x ty := by
  rw [TypeChecker.checkExpr] at h
  obtain ⟨x, hx, h⟩ := bind_eq_ok.1 h
  obtain ⟨ty, hty, h⟩ := bind_eq_ok.1 h
  cases h
  exact ⟨x, ty, hx, hty, rfl⟩

theorem checkUnary_not {ty resultType : DataType} (h : checkUnary .not ty = .ok resultType) :
    ty = .bool ∧ resultType = .bool := by
  obtain ⟨u, hu, h⟩ := bind_eq_ok.1 h
  cases h
  rw [expectBool] at hu
  split at hu
  · exact ⟨‹_›, rfl⟩
  · cases hu

theorem checkExpr_variable {name : String} {info : SymbolInfo}
    (hvar : tc.symbols.vars.lookup name = some info) :
    tc.checkExpr b (.variable name) = .ok (.variable name info.offset info.dataType) := by
  rw [TypeChecker.checkExpr, TypeChecker.checkVariable, hvar]

end Expressions

/-! ## Statements -/

/-- The labels of a CASE branch; ranges are rejected. -/
def checkCaseValues : List CaseValue → Except Failure (List Int)
  | [] => .ok []
  | .single e :: rest => do
    let v ← exprToConst e
    let vs ← checkCaseValues rest
    return v :: vs
  | .range start stop :: _ => do
    let startVal ← exprToConst start
    let endVal ← exprToConst stop
    .error (.err ("CASE ranges not yet supported: " ++ toString startVal ++ ".." ++
      toString endVal))

/-- Resolve the control variable of a FOR. -/
def TypeChecker.checkForVariable (tc : TypeChecker) (name : String) : Except Failure SymbolInfo :=
  match tc.symbols.vars.lookup name with
  | none => .error (.err ("Undefined variable: " ++ name))
  | some info => .ok info

mutual
/-- Type a statement. -/
def TypeChecker.checkStatement (b : Build) (tc : TypeChecker) :
    Statement → Except Failure TypedStatement
  | .assignment target value => do
    let t ← tc.checkExpr b target
    let v ← tc.checkExpr b value
    checkAssignmentTypes t.ty v.ty
    return .assignment t v
  | .ifStmt condition thenBranch elsifBranches elseBranch => do
    let cond ← tc.checkExpr b condition
    expectBool cond.ty
    let thn ← tc.checkStatements b thenBranch
    -- an error in an ELSIF is reported after the ELSE has been checked
    let elsifs ← hold (tc.checkElsifs b elsifBranches)
    let els ← (match elseBranch with
      | none => .ok none
      | some stmts => do
        let typed ← tc.checkStatements b stmts
        return some typed : Except Failure (Option (List TypedStatement)))
    let elsifs ← elsifs
    return .ifStmt cond thn elsifs els
  | .forStmt varName start stop step body => do
    let info ← tc.checkForVariable varName
    let start ← tc.checkExpr b start
    let stop ← tc.checkExpr b stop
    let step ← tc.checkOptional b step
    let body ← tc.checkStatements b body
    return .forStmt varName info.offset start stop step body
  | .whileStmt condition body => do
    let cond ← tc.checkExpr b condition
    expectBool cond.ty
    let body ← tc.checkStatements b body
    return .whileStmt cond body
  | .repeatStmt body untilCond => do
    let body ← tc.checkStatements b body
    let cond ← tc.checkExpr b untilCond
    expectBool cond.ty
    return .repeatStmt body cond
  | .caseStmt selector branches elseBranch => do
    let sel ← tc.checkExpr b selector
    -- likewise for an error in a branch
    let branches ← hold (tc.checkBranches b branches)
    let els ← (match elseBranch with
      | none => .ok none
      | some stmts => do
        let typed ← tc.checkStatements b stmts
        return some typed : Except Failure (Option (List TypedStatement)))
    let branches ← branches
    return .caseStmt sel branches els
  | .exitStmt => .ok .exitStmt
  | .continueStmt => .ok .continueStmt
  | .returnStmt value => do
    let v ← tc.checkOptional b value
    return .returnStmt v
  | .callStmt name arguments => do
    let args ← hold (tc.checkArguments b arguments)
    let sig ← tc.checkCallee name
    let args ← args
    return .callStmt name args sig.isUserDefined
  | .empty => .ok .empty
/-- Type statements in order. -/
def TypeChecker.checkStatements (b : Build) (tc : TypeChecker) :
    List Statement → Except Failure (List TypedStatement)
  | [] => .ok []
  | stmt :: rest => do
    let s ← tc.checkStatement b stmt
    let ss ← tc.checkStatements b rest
    return s :: ss
/-- Type ELSIF branches in order. -/
def TypeChecker.checkElsifs (b : Build) (tc : TypeChecker) :
    List (Expression × List Statement) → Except Failure (List (TypedExpr × List TypedStatement))
  | [] => .ok []
  | (condition, statements) :: rest => do
    let cond ← tc.checkExpr b condition
    expectBool cond.ty
    let stmts ← tc.checkStatements b statements
    let branches ← tc.checkElsifs b rest
    return (cond, stmts) :: branches
/-- Type CASE branches in order. -/
def TypeChecker.checkBranches (b : Build) (tc : TypeChecker) :
    List (List CaseValue × List Statement) →
      Except Failure (List (List Int × List TypedStatement))
  | [] => .ok []
  | (values, statements) :: rest => do
    let vals ← checkCaseValues values
    let stmts ← tc.checkStatements b statements
    let branches ← tc.checkBranches b rest
    return (vals, stmts) :: branches
end

/-! ## Declarations and POUs -/

/-- The offset for a variable of the given size: the next offset aligned to `min size 8`. -/
def alignOffset (b : Build) (nextOffset size : Nat) : Except Failure Nat := do
  let alignment := min size 8
  let sum ← usizeAdd b nextOffset alignment
  let last ← usizeSub b sum 1
  let mask ← usizeSub b alignment 1
  return last &&& usizeNot mask

/-- Register a variable: align the next offset, assign it, move past the variable. -/
def TypeChecker.registerVariable (b : Build) (tc : TypeChecker) (decl : VarDecl)
    (kind : VarBlockKind) (constant : Bool) : Except Failure TypeChecker := do
  let size := (← decl.dataType.sizeBytes b).getD 4
  let offset ← alignOffset b tc.nextOffset size
  let info : SymbolInfo := ⟨decl.name, decl.dataType, kind, offset, size, constant⟩
  let nextOffset ← usizeAdd b offset size
  return { tc with
    symbols := ⟨(decl.name, info) :: tc.symbols.vars,
      tc.symbols.layout ++ [⟨decl.name, offset, size⟩]⟩
    nextOffset := nextOffset }

/-- Register the variables of a block. -/
def TypeChecker.registerVarBlock (b : Build) (tc : TypeChecker) (block : VarBlock) :
    Except Failure TypeChecker :=
  block.declarations.foldlM (fun tc decl => tc.registerVariable b decl block.kind block.constant) tc

/-- Register the variables of all blocks. -/
def TypeChecker.registerVarBlocks (b : Build) (tc : TypeChecker) (blocks : List VarBlock) :
    Except Failure TypeChecker :=
  blocks.foldlM (fun tc block => tc.registerVarBlock b block) tc

/-- A fresh scope at the start of a POU. -/
def TypeChecker.enterPou (tc : TypeChecker) : TypeChecker :=
  { tc with symbols := .default, nextOffset := reservedBytes }

/-- Type a PROGRAM. -/
def TypeChecker.checkProgram (b : Build) (tc : TypeChecker) (program : Program) :
    Except Failure (TypedProgram × TypeChecker) := do
  let tc ← tc.enterPou.registerVarBlocks b program.vars
  let body ← tc.checkStatements b program.body
  return (⟨program.name, tc.symbols, body⟩, tc)

/-- Type a FUNCTION_BLOCK. -/
def TypeChecker.checkFunctionBlock (b : Build) (tc : TypeChecker) (fb : FunctionBlock) :
    Except Failure (TypedFunctionBlock × TypeChecker) := do
  let tc ← tc.enterPou.registerVarBlocks b fb.vars
  let body ← tc.checkStatements b fb.body
  return (⟨fb.name, tc.symbols, body⟩, tc)

/-- Register the return value of a FUNCTION as a variable of its own name. -/
def TypeChecker.registerReturn (b : Build) (tc : TypeChecker) (func : Function) :
    Except Failure TypeChecker := do
  let size := (← func.returnType.sizeBytes b).getD 4
  let info : SymbolInfo := ⟨func.name, func.returnType, .var, tc.nextOffset, size, false⟩
  let nextOffset ← usizeAdd b tc.nextOffset size
  return { tc with
    symbols := { tc.symbols with vars := (func.name, info) :: tc.symbols.vars }
    nextOffset := nextOffset }

/-- Type a FUNCTION. -/
def TypeChecker.checkFunction (b : Build) (tc : TypeChecker) (func : Function) :
    Except Failure (TypedFunction × TypeChecker) := do
  let tc ← tc.enterPou.registerReturn b func
  let tc ← tc.registerVarBlocks b func.vars
  let body ← tc.checkStatements b func.body
  return (⟨func.name, func.returnType, tc.symbols, body⟩, tc)

/-- Types of the input parameters of a FUNCTION. -/
def Function.params (func : Function) : List DataType :=
  (func.vars.filter fun vb => vb.kind = .input).flatMap fun vb =>
    vb.declarations.map (·.dataType)

/-- First pass: collect the signature of a callable POU. -/
def TypeChecker.collectSignature (tc : TypeChecker) (unit : ProgramUnit) : TypeChecker :=
  match unit with
  | .function f =>
    { tc with functions := (f.name, ⟨f.name, f.returnType, f.params, true⟩) :: tc.functions }
  | .functionBlock fb =>
    { tc with functions := (fb.name, ⟨fb.name, .bool, [], true⟩) :: tc.functions }
  | .program _ => tc

/-- Second pass: type a POU. -/
def TypeChecker.checkPou (b : Build) (tc : TypeChecker) (unit : ProgramUnit) :
    Except Failure (TypedPou × TypeChecker) :=
  match unit with
  | .program p => do
    let (p, tc) ← tc.checkProgram b p
    return (.program p, tc)
  | .functionBlock fb => do
    let (fb, tc) ← tc.checkFunctionBlock b fb
    return (.functionBlock fb, tc)
  | .function f => do
    let (f, tc) ← tc.checkFunction b f
    return (.function f, tc)

/-- Type POUs in order, threading the checker. -/
def TypeChecker.checkPous (b : Build) (tc : TypeChecker) :
    List ProgramUnit → Except Failure (List TypedPou × TypeChecker)
  | [] => .ok ([], tc)
  | unit :: rest => do
    let (pou, tc) ← tc.checkPou b unit
    let (pous, tc) ← tc.checkPous b rest
    return (pou :: pous, tc)

/-- Type a compilation unit. -/
def TypeChecker.checkUnit (b : Build) (tc : TypeChecker) (ast : CompilationUnit) :
    Except Failure TypedUnit := do
  let tc := ast.units.foldl TypeChecker.collectSignature tc
  let (units, tc) ← tc.checkPous b ast.units
  return ⟨units, tc.functions⟩

/-- Type check a compilation unit. -/
def check (b : Build) (ast : CompilationUnit) : Except Failure TypedUnit :=
  TypeChecker.new.checkUnit b ast

end VirtualPlc.Compiler

import VirtualPlc.Compiler.Ast

/-!
# Typed syntax tree

What the type checker makes of a compilation unit: expressions with their resolved types and memory
offsets, and a symbol table for each POU. A hash map is an association list in which an insertion
goes to the front and a lookup takes the first entry.
-/

set_option autoImplicit false

namespace VirtualPlc.Compiler

/-- Typed literals; an integer comes with its bit width. -/
inductive TypedLiteral where
  | bool (v : Bool)
  | integer (v : Int) (bits : Nat)
  | real32 (bits : BitVec 32)
  | real64 (bits : BitVec 64)
  | time (ns : Int)
deriving DecidableEq, Repr

/-- Typed expressions; `ty` is the resolved type. -/
inductive TypedExpr where
  | literal (lit : TypedLiteral) (ty : DataType)
  | variable (name : String) (offset : Nat) (ty : DataType)
  | arrayAccess (array index : TypedExpr) (elementSize : Nat) (ty : DataType)
  | fieldAccess (object : TypedExpr) (field : String) (fieldOffset : Nat) (ty : DataType)
  | binary (left : TypedExpr) (op : BinaryOp) (right : TypedExpr) (ty : DataType)
  | unary (op : UnaryOp) (operand : TypedExpr) (ty : DataType)
  | call (name : String) (arguments : List TypedExpr) (isUserDefined : Bool) (ty : DataType)
deriving Repr

/-- The resolved type of an expression. -/
def TypedExpr.ty : TypedExpr → DataType
  | .literal _ ty => ty
  | .variable _ _ ty => ty
  | .arrayAccess _ _ _ ty => ty
  | .fieldAccess _ _ _ ty => ty
  | .binary _ _ _ ty => ty
  | .unary _ _ ty => ty
  | .call _ _ _ ty => ty

/-- Typed statements. -/
inductive TypedStatement where
  | assignment (target value : TypedExpr)
  | ifStmt (condition : TypedExpr) (thenBranch : List TypedStatement)
      (elsifBranches : List (TypedExpr × List TypedStatement))
      (elseBranch : Option (List TypedStatement))
  | forStmt (varName : String) (varOffset : Nat) (start stop : TypedExpr) (step : Option TypedExpr)
      (body : List TypedStatement)
  | whileStmt (condition : TypedExpr) (body : List TypedStatement)
  | repeatStmt (body : List TypedStatement) (untilCond : TypedExpr)
  | caseStmt (selector : TypedExpr) (branches : List (List Int × List TypedStatement))
      (elseBranch : Option (List TypedStatement))
  | exitStmt
  | continueStmt
  | returnStmt (value : Option TypedExpr)
  | callStmt (name : String) (arguments : List TypedExpr) (isUserDefined : Bool)
  | empty
deriving Repr

/-- Information about a symbol. -/
structure SymbolInfo where
  name : String
  dataType : DataType
  kind : VarBlockKind
  offset : Nat
  size : Nat
  constant : Bool
deriving DecidableEq, Repr

/-- Layout of a variable. -/
structure VarLayout where
  name : String
  offset : Nat
  size : Nat
deriving DecidableEq, Repr

/-- Symbol table of a scope. -/
structure SymbolTable where
  vars : List (String × SymbolInfo)
  layout : List VarLayout
deriving DecidableEq, Repr

/-- Signature of a callable. -/
structure FunctionSignature where
  name : String
  returnType : DataType
  params : List DataType
  isUserDefined : Bool
deriving DecidableEq, Repr

/-- A typed PROGRAM. -/
structure TypedProgram where
  name : String
  symbols : SymbolTable
  body : List TypedStatement
deriving Repr

/-- A typed FUNCTION_BLOCK. -/
structure TypedFunctionBlock where
  name : String
  symbols : SymbolTable
  body : List TypedStatement
deriving Repr

/-- A typed FUNCTION. -/
structure TypedFunction where
  name : String
  returnType : DataType
  symbols : SymbolTable
  body : List TypedStatement
deriving Repr

/-- A typed POU. -/
inductive TypedPou where
  | program (p : TypedProgram)
  | functionBlock (fb : TypedFunctionBlock)
  | function (f : TypedFunction)
deriving Repr

/-- A typed compilation unit. -/
structure TypedUnit where
  units : List TypedPou
  functions : List (String × FunctionSignature)
deriving Repr

/-- The symbol table of a POU. -/
def TypedPou.symbols : TypedPou → SymbolTable
  | .program p => p.symbols
  | .functionBlock fb => fb.symbols
  | .function f => f.symbols

/-- The statements of a POU. -/
def TypedPou.body : TypedPou → List TypedStatement
  | .program p => p.body
  | .functionBlock fb => fb.body
  | .function f => f.body

end VirtualPlc.Compiler

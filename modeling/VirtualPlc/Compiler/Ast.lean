import VirtualPlc.Word.Checked

/-!
# Abstract syntax of Structured Text

The syntax tree that the parser hands to the type checker, without source positions. `i64` values
are integers, `usize` values natural numbers, and a floating-point literal is its bit pattern.
-/

set_option autoImplicit false

namespace VirtualPlc.Compiler

open VirtualPlc.Word

/-- IEC 61131-3 data types. -/
inductive DataType where
  | bool
  | sint
  | int
  | dint
  | lint
  | usint
  | uint
  | udint
  | ulint
  | real
  | lreal
  | time
  | date
  | timeOfDay
  | dateTime
  | byte
  | word
  | dword
  | lword
  | string (len : Option Nat)
  | wString (len : Option Nat)
  | array (lower upper : Int) (elementType : DataType)
  | named (name : String)
deriving DecidableEq, Repr

/-- Size in bytes, if known at compile time. -/
def DataType.sizeBytes (b : Build) : DataType → Except Failure (Option Nat)
  | .bool => .ok (some 1)
  | .sint | .usint | .byte => .ok (some 1)
  | .int | .uint | .word => .ok (some 2)
  | .dint | .udint | .dword | .real => .ok (some 4)
  | .lint | .ulint | .lword | .lreal => .ok (some 8)
  | .time => .ok (some 8)
  | .date | .timeOfDay | .dateTime => .ok (some 8)
  | .string (some len) => do
    let size ← usizeAdd b len 1
    return some size
  | .wString (some len) => do
    let chars ← usizeAdd b len 1
    let size ← usizeMul b chars 2
    return some size
  | .array lower upper elementType => do
    let span ← i64Sub b upper lower
    let count ← i64Add b span 1
    match ← elementType.sizeBytes b with
    | none => return none
    | some s =>
      let size ← usizeMul b s (asUsize count)
      return some size
  | .string none | .wString none | .named _ => .ok none

/-- Numeric types. -/
def DataType.isNumeric : DataType → Bool
  | .sint | .int | .dint | .lint | .usint | .uint | .udint | .ulint | .real | .lreal => true
  | _ => false

/-- The type as it is printed in messages. -/
def DataType.display : DataType → String
  | .bool => "BOOL"
  | .sint => "SINT"
  | .int => "INT"
  | .dint => "DINT"
  | .lint => "LINT"
  | .usint => "USINT"
  | .uint => "UINT"
  | .udint => "UDINT"
  | .ulint => "ULINT"
  | .real => "REAL"
  | .lreal => "LREAL"
  | .time => "TIME"
  | .date => "DATE"
  | .timeOfDay => "TIME_OF_DAY"
  | .dateTime => "DATE_AND_TIME"
  | .byte => "BYTE"
  | .word => "WORD"
  | .dword => "DWORD"
  | .lword => "LWORD"
  | .string none => "STRING"
  | .string (some len) => "STRING[" ++ toString len ++ "]"
  | .wString none => "WSTRING"
  | .wString (some len) => "WSTRING[" ++ toString len ++ "]"
  | .array lower upper elementType =>
    "ARRAY[" ++ toString lower ++ ".." ++ toString upper ++ "] OF " ++ elementType.display
  | .named name => name

/-- Binary operators. -/
inductive BinaryOp where
  | add
  | sub
  | mul
  | div
  | mod
  | pow
  | eq
  | ne
  | lt
  | le
  | gt
  | ge
  | and
  | or
  | xor
  | bitAnd
  | bitOr
  | bitXor
  | shl
  | shr
deriving DecidableEq, Repr

/-- Unary operators. -/
inductive UnaryOp where
  | neg
  | not
deriving DecidableEq, Repr

/-- Literal values; a time of day is in nanoseconds since midnight. -/
inductive Literal where
  | bool (v : Bool)
  | integer (v : Int)
  | real (bits : BitVec 64)
  | string (s : String)
  | time (ns : Int)
  | date (year month day : Nat)
  | timeOfDay (ns : Int)
  | dateTime (year month day hour minute second nanosecond : Nat)
deriving DecidableEq, Repr

/-- Expressions. A call argument carries the parameter name of a named argument. -/
inductive Expression where
  | literal (lit : Literal)
  | variable (name : String)
  | arrayAccess (array index : Expression)
  | fieldAccess (object : Expression) (field : String)
  | binary (left : Expression) (op : BinaryOp) (right : Expression)
  | unary (op : UnaryOp) (operand : Expression)
  | call (name : String) (arguments : List (Option String × Expression))
  | paren (inner : Expression)
deriving Repr

/-- A value or range of a CASE branch. -/
inductive CaseValue where
  | single (e : Expression)
  | range (start stop : Expression)
deriving Repr

/-- Statements. -/
inductive Statement where
  | assignment (target value : Expression)
  | ifStmt (condition : Expression) (thenBranch : List Statement)
      (elsifBranches : List (Expression × List Statement)) (elseBranch : Option (List Statement))
  | caseStmt (selector : Expression) (branches : List (List CaseValue × List Statement))
      (elseBranch : Option (List Statement))
  | forStmt (varName : String) (start stop : Expression) (step : Option Expression)
      (body : List Statement)
  | whileStmt (condition : Expression) (body : List Statement)
  | repeatStmt (body : List Statement) (untilCond : Expression)
  | exitStmt
  | continueStmt
  | returnStmt (value : Option Expression)
  | callStmt (name : String) (arguments : List (Option String × Expression))
  | empty
deriving Repr

/-- Kinds of variable blocks. -/
inductive VarBlockKind where
  | var
  | input
  | output
  | inOut
  | external
  | global
  | temp
deriving DecidableEq, Repr

/-- A variable declaration. -/
structure VarDecl where
  name : String
  dataType : DataType
  initialValue : Option Expression
deriving Repr

/-- A variable block. -/
structure VarBlock where
  kind : VarBlockKind
  constant : Bool
  declarations : List VarDecl
deriving Repr

/-- A PROGRAM. -/
structure Program where
  name : String
  vars : List VarBlock
  body : List Statement
deriving Repr

/-- A FUNCTION_BLOCK. -/
structure FunctionBlock where
  name : String
  vars : List VarBlock
  body : List Statement
deriving Repr

/-- A FUNCTION. -/
structure Function where
  name : String
  returnType : DataType
  vars : List VarBlock
  body : List Statement
deriving Repr

/-- A program organization unit (POU). -/
inductive ProgramUnit where
  | program (p : Program)
  | functionBlock (fb : FunctionBlock)
  | function (f : Function)
deriving Repr

/-- A compilation unit. -/
structure CompilationUnit where
  units : List ProgramUnit
deriving Repr

end VirtualPlc.Compiler

import VirtualPlc.Compiler.Meaning
import VirtualPlc.Control.Signals

/-!
# Meaning of Structured Text

What a POU means, without offsets, operands and branches: a store gives every variable an integer,
a BOOL variable 0 or 1, and statements change it. Arithmetic is that of 32-bit two's complement,
an assignment keeps the bits that the declared type has, and a division traps where it has no
result. Loops make at most `n` passes each, so that a run that wants more says so.

`Statement.plain` selects the statements whose generated code is claimed to have this meaning.
-/

set_option autoImplicit false

namespace VirtualPlc.Compiler

open VirtualPlc.Word VirtualPlc.Control

/-- Values of the variables. -/
abbrev Store := String → Int

/-- Declared types of the variables. -/
abbrev Types := String → Option DataType

/-- What a host function answers to arguments; `none` is a trap. -/
abbrev Answers := String → List Int → Option (BitVec 32)

/-- Why a run stops. -/
inductive RunError where
  | trap
  | unsupported
deriving DecidableEq, Repr

/-! ## Expressions -/

/-- What is left of a value in a variable of the type. -/
def DataType.keep (ty : DataType) (v : Int) : Int :=
  match ty with
  | .sint => v.bmod (2 ^ 8)
  | .int => v.bmod (2 ^ 16)
  | .dint => v.bmod (2 ^ 32)
  | _ => v

/-- Result of a binary operator; `none` is a trap. -/
def BinaryOp.compute (op : BinaryOp) (x y : Int) : Option Int :=
  match op with
  | .add => some ((x + y).bmod (2 ^ 32))
  | .sub => some ((x - y).bmod (2 ^ 32))
  | .mul => some ((x * y).bmod (2 ^ 32))
  -- the quotient of the least integer and -1 is out of range
  | .div => if y ≠ 0 ∧ x.tdiv y < 2 ^ 31 then some (x.tdiv y) else none
  | .mod => if y ≠ 0 then some (x.tmod y) else none
  | _ => op.meaning x y

/-- Result of a unary operator. -/
def UnaryOp.compute (op : UnaryOp) (x : Int) : Int :=
  match op with
  | .neg => (-x).bmod (2 ^ 32)
  | .not => 1 - x

mutual
/-- Value of an expression. -/
def Expression.eval (answers : Answers) (ρ : Store) : Expression → Option Int
  | .literal (.bool v) => some (truth (v = true))
  | .literal (.integer v) => some v
  | .variable name => some (ρ name)
  | .binary left op right =>
    (left.eval answers ρ).bind fun x => (right.eval answers ρ).bind fun y => op.compute x y
  | .unary op operand => (operand.eval answers ρ).map op.compute
  | .call name arguments =>
    (evalArguments answers ρ arguments).bind fun xs => (answers name xs).map BitVec.toInt
  | .paren inner => inner.eval answers ρ
  | .literal _ | .arrayAccess .. | .fieldAccess .. => none
/-- Values of call arguments. -/
def evalArguments (answers : Answers) (ρ : Store) :
    List (Option String × Expression) → Option (List Int)
  | [] => some []
  | (_, value) :: rest =>
    (value.eval answers ρ).bind fun x => (evalArguments answers ρ rest).map fun xs => x :: xs
end

/-! ## Statements -/

/-- Assign what the declared type keeps of a value. -/
def Store.assign (types : Types) (ρ : Store) (name : String) (v : Int) : Store := fun x =>
  if x = name then
    match types name with
    | some ty => ty.keep v
    | none => v
  else ρ x

/-- Continue with the value of an expression. -/
def withValue (v : Option Int) (f : Int → Signal RunError Store) : Signal RunError Store :=
  match v with
  | some v => f v
  | none => .stop .trap

/-- A label of a CASE is for the value. -/
def CaseValue.covers (v : Int) : CaseValue → Bool
  | .single (.literal (.integer l)) => v == l
  | .range (.literal (.integer l)) (.literal (.integer u)) => l ≤ v && v ≤ u
  | _ => false

/-- The step of a FOR; the default is 1. -/
def stepValue (answers : Answers) (ρ : Store) (step : Option Expression) : Option Int :=
  match step with
  | some e => e.eval answers ρ
  | none => some 1

/-- A FOR is done when its variable is past the final value in the direction of the step. -/
def pastFinal (inc final v : Int) : Bool := if 0 ≤ inc then final < v else v < final

mutual
/-- Run a statement with at most `n` passes of each loop. -/
def Statement.run (types : Types) (answers : Answers) (n : Nat) :
    Statement → Store → Signal RunError Store
  | .assignment target value, ρ =>
    match target with
    | .variable name =>
      withValue (value.eval answers ρ) fun v => .next (ρ.assign types name v)
    | _ => .stop .unsupported
  | .ifStmt condition thenBranch elsifBranches elseBranch, ρ =>
    withValue (condition.eval answers ρ) fun v =>
      if v ≠ 0 then runAll types answers n thenBranch ρ
      else runElsifs types answers n elsifBranches
        (match elseBranch with
          | some stmts => runAll types answers n stmts
          | none => .next) ρ
  | .caseStmt selector branches elseBranch, ρ =>
    withValue (selector.eval answers ρ) fun v =>
      runBranches types answers n branches v
        (match elseBranch with
          | some stmts => runAll types answers n stmts
          | none => .next) ρ
  | .forStmt varName start stop step body, ρ =>
    withValue (start.eval answers ρ) fun first =>
      passes (fun ρ =>
        withValue (stop.eval answers ρ) fun final =>
          withValue (stepValue answers ρ step) fun inc =>
            if pastFinal inc final (ρ varName) then .exit ρ
            else (runAll types answers n body ρ).settle.andThen fun ρ =>
              .next (ρ.assign types varName (ρ varName + inc)))
        n (ρ.assign types varName first)
  | .whileStmt condition body, ρ =>
    passes (fun ρ =>
      withValue (condition.eval answers ρ) fun v =>
        if v ≠ 0 then runAll types answers n body ρ else .exit ρ) n ρ
  | .repeatStmt body untilCond, ρ =>
    passes (fun ρ =>
      (runAll types answers n body ρ).settle.andThen fun ρ =>
        withValue (untilCond.eval answers ρ) fun v => if v ≠ 0 then .exit ρ else .next ρ) n ρ
  | .exitStmt, ρ => .exit ρ
  | .continueStmt, ρ => .again ρ
  | .returnStmt none, ρ => .ret ρ
  | .returnStmt (some e), ρ => withValue (e.eval answers ρ) fun _ => .ret ρ
  | .callStmt .., _ => .stop .unsupported
  | .empty, ρ => .next ρ
/-- Run statements in order. -/
def runAll (types : Types) (answers : Answers) (n : Nat) :
    List Statement → Store → Signal RunError Store
  | [], ρ => .next ρ
  | stmt :: rest, ρ => (stmt.run types answers n ρ).andThen (runAll types answers n rest)
/-- Run the first ELSIF branch whose condition holds, or `els`. -/
def runElsifs (types : Types) (answers : Answers) (n : Nat) :
    List (Expression × List Statement) → (Store → Signal RunError Store) → Store →
      Signal RunError Store
  | [], els, ρ => els ρ
  | (condition, stmts) :: rest, els, ρ =>
    withValue (condition.eval answers ρ) fun v =>
      if v ≠ 0 then runAll types answers n stmts ρ else runElsifs types answers n rest els ρ
/-- Run the first CASE branch with a label for the value, or `els`. -/
def runBranches (types : Types) (answers : Answers) (n : Nat) :
    List (List CaseValue × List Statement) → Int → (Store → Signal RunError Store) → Store →
      Signal RunError Store
  | [], _, els, ρ => els ρ
  | (values, stmts) :: rest, v, els, ρ =>
    if values.any (·.covers v) then runAll types answers n stmts ρ
    else runBranches types answers n rest v els ρ
end

/-! ## Plain statements -/

/-- BOOL and the signed integer types of at most 32 bits. -/
def DataType.isPlain : DataType → Bool
  | .bool | .sint | .int | .dint => true
  | _ => false

/-- Arithmetic, comparisons and logic on such values. -/
def BinaryOp.isPlain (op : BinaryOp) : Bool := op.isBasic || op == .div || op == .mod

/-- Numbers of parameters of the host functions that return a value. -/
def readArity (name : String) : Option Nat :=
  if name = "read_di" then some 1
  else if name = "read_ai" then some 1
  else if name = "get_cycle_time" then some 0
  else none

/-- A variable of a plain type. -/
def plainVariable (types : Types) (name : String) : Bool :=
  match types name with
  | some ty => ty.isPlain
  | none => false

/-- A constant of 32 bits. -/
def plainConstant (v : Int) : Bool := decide (InSigned 32 v)

mutual
/-- Constants, plain variables, host inputs, and operators other than unary minus. -/
def Expression.plain (types : Types) : Expression → Bool
  | .literal (.bool _) => true
  | .literal (.integer v) => plainConstant v
  | .variable name => plainVariable types name
  | .binary left op right => op.isPlain && (left.plain types && right.plain types)
  | .unary op operand => op == .not && operand.plain types
  | .call name arguments =>
    readArity name == some arguments.length && plainArguments types arguments
  | .paren inner => inner.plain types
  | .literal _ | .arrayAccess .. | .fieldAccess .. => false
/-- Every argument is plain. -/
def plainArguments (types : Types) : List (Option String × Expression) → Bool
  | [] => true
  | (_, value) :: rest => value.plain types && plainArguments types rest
end

/-- A label of 32 bits. -/
def CaseValue.plain : CaseValue → Bool
  | .single (.literal (.integer v)) => plainConstant v
  | _ => false

/-- A step that is left out or a positive constant. -/
def plainStep (step : Option Expression) : Bool :=
  match step with
  | none => true
  | some (.literal (.integer v)) => decide (0 < v) && plainConstant v
  | some _ => false

mutual
/-- Statements over plain expressions and plain variables: a FOR counts a DINT up by a constant, the
labels of a CASE have 32 bits, and an EXIT or CONTINUE stands in a loop. -/
def Statement.plain (types : Types) (inLoop : Bool) : Statement → Bool
  | .assignment target value =>
    (match target with
      | .variable name => plainVariable types name
      | _ => false) && value.plain types
  | .ifStmt condition thenBranch elsifBranches elseBranch =>
    condition.plain types && (plainAll types inLoop thenBranch &&
      (plainElsifs types inLoop elsifBranches &&
        (match elseBranch with
          | some stmts => plainAll types inLoop stmts
          | none => true)))
  | .caseStmt selector branches elseBranch =>
    selector.plain types && (plainBranches types inLoop branches &&
      (match elseBranch with
        | some stmts => plainAll types inLoop stmts
        | none => true))
  | .forStmt varName start stop step body =>
    types varName == some .dint && (start.plain types && (stop.plain types &&
      (plainStep step && plainAll types true body)))
  | .whileStmt condition body => condition.plain types && plainAll types true body
  | .repeatStmt body untilCond => plainAll types true body && untilCond.plain types
  | .exitStmt | .continueStmt => inLoop
  | .returnStmt none => true
  | .returnStmt (some e) => e.plain types
  | .callStmt .. => false
  | .empty => true
/-- Every statement is plain. -/
def plainAll (types : Types) (inLoop : Bool) : List Statement → Bool
  | [] => true
  | stmt :: rest => stmt.plain types inLoop && plainAll types inLoop rest
/-- Every ELSIF branch is plain. -/
def plainElsifs (types : Types) (inLoop : Bool) : List (Expression × List Statement) → Bool
  | [] => true
  | (condition, stmts) :: rest =>
    condition.plain types && (plainAll types inLoop stmts && plainElsifs types inLoop rest)
/-- Every CASE branch is plain. -/
def plainBranches (types : Types) (inLoop : Bool) : List (List CaseValue × List Statement) → Bool
  | [] => true
  | (values, stmts) :: rest =>
    values.all CaseValue.plain && (plainAll types inLoop stmts && plainBranches types inLoop rest)
end

end VirtualPlc.Compiler

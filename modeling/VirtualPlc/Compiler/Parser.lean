import VirtualPlc.Compiler.Ast
import VirtualPlc.Compiler.Grammar

/-!
# From the parse tree to the abstract syntax

The functions that turn the nodes of the parse tree into expressions and statements. They follow
the tree, not the text: a level of the expression grammar folds its operands from left to right.
-/

set_option autoImplicit false

namespace VirtualPlc.Compiler

open VirtualPlc.Parsing

/-- A node of the parse tree. -/
abbrev Node := Pair Rule

/-- A result, or the text of an error. -/
abbrev Parsed (α : Type) := Except String α

/-- The stages of a result that is no error. -/
theorem parsed_bind_ok {α β : Type} {x : Parsed α} {f : α → Parsed β} {r : β}
    (h : x >>= f = .ok r) : ∃ a, x = .ok a ∧ f a = .ok r := by
  cases x with
  | error m => cases h
  | ok a => exact ⟨a, rfl, h⟩

/-- The error of an iterator that ends too early. -/
def expectNext (context : String) : String :=
  "Parser error: expected " ++ context ++ " but found end of input"

/-! ## Literals -/

/-- Readers of the literals that are not integers of the source's own: a floating-point number,
as its bit pattern, and a duration in nanoseconds. -/
structure LiteralReaders where
  real : List Char → Option (BitVec 64)
  time : List Char → Except String Int

/-- The value of a digit. -/
def digitValue (c : Char) : Nat :=
  if c.isDigit then c.toNat - '0'.toNat
  else if 'a' ≤ c ∧ c ≤ 'z' then c.toNat - 'a'.toNat + 10
  else if 'A' ≤ c ∧ c ≤ 'Z' then c.toNat - 'A'.toNat + 10
  else 36

/-- Reads digits into an `i64`, `none` where there is no digit, a digit is out of range or the
value is. A sign does not occur in a literal. -/
def i64FromStrRadix (radix : Nat) (digits : List Char) : Option Int :=
  if digits.isEmpty ∨ ¬ digits.all (fun c => digitValue c < radix) then none
  else
    let value := digits.foldl (fun v c => v * radix + digitValue c) 0
    if value < 2 ^ 63 then some (value : Int) else none

/-- The value of an integer literal. -/
def integerValue (text : List Char) : Parsed Int :=
  let s := text.filter (· ≠ '_')
  let value :=
    match afterPrefix (· == ·) "16#".toList s with
    | some rest => i64FromStrRadix 16 rest
    | none =>
      match afterPrefix (· == ·) "8#".toList s with
      | some rest => i64FromStrRadix 8 rest
      | none =>
        match afterPrefix (· == ·) "2#".toList s with
        | some rest => i64FromStrRadix 2 rest
        | none => i64FromStrRadix 10 s
  match value with
  | some v => .ok v
  | none => .error ("Invalid integer literal: " ++ String.ofList s)

def parseLiteral (R : LiteralReaders) (pair : Node) : Parsed Expression :=
  match pair.inner with
  | [] => .error "Expected literal content"
  | inner :: _ =>
    match inner.rule with
    | .boolLiteral => .ok (.literal (.bool (inner.text.map Char.toUpper == "TRUE".toList)))
    | .integerLiteral => do
      let v ← integerValue inner.text
      return .literal (.integer v)
    | .realLiteral =>
      match R.real inner.text with
      | some bits => .ok (.literal (.real bits))
      | none => .error "Invalid real literal"
    | .stringLiteral => .ok (.literal (.string (String.ofList inner.text.tail.dropLast)))
    | .timeLiteral =>
      match R.time inner.text with
      | .ok ns => .ok (.literal (.time ns))
      | .error e => .error ("Invalid time literal: " ++ e)
    | r => .error ("Unexpected literal type: " ++ r.debug)

/-! ## Operators -/

def comparisonOperator (op : Node) : Parsed BinaryOp :=
  if op.text = "=".toList then .ok .eq
  else if op.text = "<>".toList then .ok .ne
  else if op.text = "<".toList then .ok .lt
  else if op.text = "<=".toList then .ok .le
  else if op.text = ">".toList then .ok .gt
  else if op.text = ">=".toList then .ok .ge
  else .error "Unknown comparison operator"

def addOperator (op : Node) : Parsed BinaryOp :=
  if op.text = "+".toList then .ok .add
  else if op.text = "-".toList then .ok .sub
  else .error "Unknown add operator"

def mulOperator (op : Node) : Parsed BinaryOp :=
  if op.text.map Char.toUpper = "*".toList then .ok .mul
  else if op.text.map Char.toUpper = "/".toList then .ok .div
  else if op.text.map Char.toUpper = "MOD".toList then .ok .mod
  else .error "Unknown mul operator"

def unaryOperator (op : Node) : Parsed UnaryOp :=
  if op.text.map Char.toUpper = "-".toList then .ok .neg
  else if op.text.map Char.toUpper = "NOT".toList then .ok .not
  else .error "Unknown unary operator"

/-- The levels between `OR` and `**`, whose functions have one shape. -/
inductive OperatorLevel where
  | xor
  | and
  | comparison
  | add
  | mul
deriving DecidableEq

namespace OperatorLevel

/-- The level of the operands, none for the operands of a product, which are powers. -/
def operand : OperatorLevel → Option OperatorLevel
  | .xor => some .and
  | .and => some .comparison
  | .comparison => some .add
  | .add => some .mul
  | .mul => none

/-- The rule of the level's operators. -/
def opRule : OperatorLevel → Rule
  | .xor => .xorOp
  | .and => .andOp
  | .comparison => .comparisonOp
  | .add => .addOp
  | .mul => .mulOp

/-- The operator that a node of the level stands for. -/
def operator : OperatorLevel → Node → Parsed BinaryOp
  | .xor => fun _ => .ok .xor
  | .and => fun _ => .ok .and
  | .comparison => comparisonOperator
  | .add => addOperator
  | .mul => mulOperator

def missingOperand : OperatorLevel → String
  | .xor => "Expected XOR expression operand"
  | .and => "Expected AND expression operand"
  | .comparison => "Expected comparison operand"
  | .add => "Expected additive expression operand"
  | .mul => "Expected multiplicative expression operand"

def missingRight : OperatorLevel → String
  | .xor => "Expected right operand after XOR operator"
  | .and => "Expected right operand after AND operator"
  | .comparison => "Expected right operand after comparison operator"
  | .add => "Expected right operand after +/- operator"
  | .mul => "Expected right operand after */MOD operator"

end OperatorLevel

/-! ## Expressions -/

mutual

def parseExpression (R : LiteralReaders) : Node → Parsed Expression
  | .node _ _ [] => .error "Expected expression content"
  | .node _ _ (orExpr :: _) => parseOrExpr R orExpr

def parseOrExpr (R : LiteralReaders) : Node → Parsed Expression
  | .node _ _ [] => .error "Expected OR expression operand"
  | .node _ _ (first :: inner) => do
    let left ← parseLevel R .xor first
    parseOrRest R left inner

/-- The loop of `parseOrExpr`. A node that is no operator is taken for a right operand. -/
def parseOrRest (R : LiteralReaders) : Expression → List Node → Parsed Expression
  | left, [] => .ok left
  | left, [opPair] =>
    if opPair.rule = .orOp then .error "Expected right operand after OR operator"
    else do
      let right ← parseLevel R .xor opPair
      return .binary left .or right
  | left, opPair :: rightPair :: inner =>
    if opPair.rule = .orOp then do
      let right ← parseLevel R .xor rightPair
      parseOrRest R (.binary left .or right) inner
    else do
      let right ← parseLevel R .xor opPair
      parseOrRest R (.binary left .or right) (rightPair :: inner)

/-- One function for the levels from `XOR` to the products. -/
def parseLevel (R : LiteralReaders) : OperatorLevel → Node → Parsed Expression
  | l, .node _ _ [] => .error l.missingOperand
  | l, .node _ _ (first :: inner) => do
    let left ← match l.operand with
      | some tighter => parseLevel R tighter first
      | none => parsePowerExpr R first
    parseLevelRest R l left inner

/-- The loop of a level. A node that is no operator of the level is passed over. -/
def parseLevelRest (R : LiteralReaders) : OperatorLevel → Expression → List Node → Parsed Expression
  | _, left, [] => .ok left
  | l, left, [opPair] =>
    if opPair.rule = l.opRule then do
      let _ ← l.operator opPair
      .error l.missingRight
    else .ok left
  | l, left, opPair :: rightPair :: inner =>
    if opPair.rule = l.opRule then do
      let op ← l.operator opPair
      let right ← match l.operand with
        | some tighter => parseLevel R tighter rightPair
        | none => parsePowerExpr R rightPair
      parseLevelRest R l (.binary left op right) inner
    else parseLevelRest R l left (rightPair :: inner)

def parsePowerExpr (R : LiteralReaders) : Node → Parsed Expression
  | .node _ _ [] => .error "Expected power expression operand"
  | .node _ _ (first :: inner) => do
    let left ← parseUnaryExpr R first
    parsePowerRest R left inner

def parsePowerRest (R : LiteralReaders) : Expression → List Node → Parsed Expression
  | left, [] => .ok left
  | left, rightPair :: inner => do
    let right ← parseUnaryExpr R rightPair
    parsePowerRest R (.binary left .pow right) inner

def parseUnaryExpr (R : LiteralReaders) : Node → Parsed Expression
  | .node _ _ [] => .error "Expected unary expression content"
  | .node _ _ [first] =>
    if first.rule = .unaryOp then do
      let _ ← unaryOperator first
      .error "Expected operand after unary operator"
    else parsePrimaryExprInner R first
  | .node _ _ (first :: primary :: _) =>
    if first.rule = .unaryOp then do
      let op ← unaryOperator first
      let operand ← parsePrimaryExprInner R primary
      return .unary op operand
    else parsePrimaryExprInner R first

def parsePrimaryExprInner (R : LiteralReaders) : Node → Parsed Expression
  | .node _ _ [] => .error "Expected primary expression content"
  | .node _ _ (inner :: _) =>
    match inner.rule with
    | .expression => do
      let expr ← parseExpression R inner
      return .paren expr
    | .functionCall => parseFunctionCall R inner
    | .literal => parseLiteral R inner
    | .variable => parseVariable R inner
    | r => .error ("Unexpected primary expression: " ++ r.debug)

def parseFunctionCall (R : LiteralReaders) : Node → Parsed Expression
  | .node _ _ [] => .error "Expected function name"
  | .node _ _ [name] => .ok (.call name.asStr [])
  | .node _ _ (name :: list :: _) => do
    let arguments ← parseArguments R list
    return .call name.asStr arguments

def parseArguments (R : LiteralReaders) : Node → Parsed (List (Option String × Expression))
  | .node _ _ items => parseArgumentItems R items

/-- The loop of `parseArguments`. -/
def parseArgumentItems (R : LiteralReaders) :
    List Node → Parsed (List (Option String × Expression))
  | [] => .ok []
  | item :: items =>
    if item.rule = .argument then do
      let argument ← parseArgument R item
      let rest ← parseArgumentItems R items
      return argument :: rest
    else parseArgumentItems R items

/-- One argument, with its name where it has two parts. -/
def parseArgument (R : LiteralReaders) : Node → Parsed (Option String × Expression)
  | .node _ _ [valuePart] => do
    let value ← parseExpression R valuePart
    return (none, value)
  | .node _ _ [namePart, valuePart] => do
    let value ← parseExpression R valuePart
    return (some namePart.asStr, value)
  | .node _ _ inner =>
    .error ("Invalid argument format (expected 1 or 2 parts, got " ++ toString inner.length ++ ")")

def parseVariable (R : LiteralReaders) : Node → Parsed Expression
  | .node _ _ [] => .error "Expected variable name"
  | .node _ _ (name :: inner) => parseAccesses R (.variable name.asStr) inner

/-- The loop of `parseVariable`. -/
def parseAccesses (R : LiteralReaders) : Expression → List Node → Parsed Expression
  | expr, [] => .ok expr
  | expr, item :: inner => do
    let expr ← parseAccess R expr item
    parseAccesses R expr inner

/-- One index or field. -/
def parseAccess (R : LiteralReaders) : Expression → Node → Parsed Expression
  | _, .node .arrayIndex _ [] => .error "Expected array index expression"
  | expr, .node .arrayIndex _ (indexPair :: _) => do
    let index ← parseExpression R indexPair
    return .arrayAccess expr index
  | _, .node .fieldAccess _ [] => .error "Expected field name"
  | expr, .node .fieldAccess _ (field :: _) => .ok (.fieldAccess expr field.asStr)
  | expr, _ => .ok expr

end

def parseXorExpr (R : LiteralReaders) : Node → Parsed Expression := parseLevel R .xor

def parseAndExpr (R : LiteralReaders) : Node → Parsed Expression := parseLevel R .and

def parseComparison (R : LiteralReaders) : Node → Parsed Expression := parseLevel R .comparison

def parseAddExpr (R : LiteralReaders) : Node → Parsed Expression := parseLevel R .add

def parseMulExpr (R : LiteralReaders) : Node → Parsed Expression := parseLevel R .mul

/-! ## Data types -/

/-- The value of a constant integer expression: a literal under minus signs. A literal fits in an
`i64` and has no sign, so no negation overflows. -/
def exprToI64 : Expression → Parsed Int
  | .literal (.integer n) => .ok n
  | .unary .neg operand => do
    let n ← exprToI64 operand
    return -n
  | _ => .error "Expected constant integer expression"

/-- Reads decimal digits into a `usize`. A sign does not occur in a literal. -/
def usizeFromStr (digits : List Char) : Option Nat :=
  if digits.isEmpty ∨ ¬ digits.all Char.isDigit then none
  else
    let value := digits.foldl (fun v c => v * 10 + digitValue c) 0
    if value < 2 ^ 64 then some value else none

/-- The elementary types under their names. -/
def elementaryTypes : List (String × DataType) :=
  [("BOOL", .bool), ("SINT", .sint), ("INT", .int), ("DINT", .dint), ("LINT", .lint),
    ("USINT", .usint), ("UINT", .uint), ("UDINT", .udint), ("ULINT", .ulint), ("REAL", .real),
    ("LREAL", .lreal), ("TIME", .time), ("DATE", .date), ("TIME_OF_DAY", .timeOfDay),
    ("TOD", .timeOfDay), ("DATE_AND_TIME", .dateTime), ("DT", .dateTime), ("BYTE", .byte),
    ("WORD", .word), ("DWORD", .dword), ("LWORD", .lword)]

def elementaryType (inner : Node) : Parsed DataType :=
  let typeStr := inner.text.map Char.toUpper
  match elementaryTypes.find? fun entry => entry.1.toList == typeStr with
  | some entry => .ok entry.2
  | none => .error ("Unknown elementary type: " ++ String.ofList typeStr)

/-- A string type. The first node inside is taken for its name and the second for its length. -/
def stringType (inner : Node) : Parsed DataType :=
  let typeName := inner.inner.head?.map fun p => p.text.map Char.toUpper
  let length := inner.inner.tail.head?.bind fun p => usizeFromStr p.text
  match typeName with
  | none => .ok (.string length)
  | some name =>
    if name = "STRING".toList then .ok (.string length)
    else if name = "WSTRING".toList then .ok (.wString length)
    else .error "Unknown string type"

/-- The bounds of an array. -/
def parseBounds (R : LiteralReaders) (subrange : Node) : Parsed (Int × Int) :=
  match subrange.inner with
  | [] => .error "Expected array lower bound"
  | [_] => .error "Expected array upper bound"
  | lowerPair :: upperPair :: _ => do
    let lowerExpr ← parseExpression R lowerPair
    let upperExpr ← parseExpression R upperPair
    let lower ← exprToI64 lowerExpr
    let upper ← exprToI64 upperExpr
    return (lower, upper)

mutual

def parseDataType (R : LiteralReaders) : Node → Parsed DataType
  | .node _ _ [] => .error "Expected data type content"
  | .node _ _ (inner :: _) =>
    match inner.rule with
    | .elementaryType => elementaryType inner
    | .stringType => stringType inner
    | .arrayType => parseArrayType R inner
    | .identifier => .ok (.named inner.asStr)
    | r => .error ("Unexpected data type: " ++ r.debug)

def parseArrayType (R : LiteralReaders) : Node → Parsed DataType
  | .node _ _ [] => .error "Expected array subrange"
  | .node _ _ [subrange] => do
    let _ ← parseBounds R subrange
    .error "Expected array element type"
  | .node _ _ (subrange :: elementTypePair :: _) => do
    let (lower, upper) ← parseBounds R subrange
    let elementType ← parseDataType R elementTypePair
    return .array lower upper elementType

end

/-! ## Statements -/

def parseAssignment (R : LiteralReaders) (pair : Node) : Parsed Statement :=
  match pair.inner with
  | [] => .error (expectNext "assignment target")
  | [targetPair] => do
    let _ ← parseVariable R targetPair
    .error (expectNext "assignment value")
  | targetPair :: valuePair :: _ => do
    let target ← parseVariable R targetPair
    let value ← parseExpression R valuePair
    return .assignment target value

def parseCallStmt (R : LiteralReaders) (pair : Node) : Parsed Statement :=
  match pair.inner with
  | [] => .error (expectNext "function/block call name")
  | [name] => .ok (.callStmt name.asStr [])
  | name :: list :: _ => do
    let arguments ← parseArguments R list
    return .callStmt name.asStr arguments

/-- The value of a RETURN, where it has one. -/
def parseReturn (R : LiteralReaders) (pair : Node) : Parsed Statement :=
  match pair.inner with
  | [] => .ok (.returnStmt none)
  | p :: _ => do
    let value ← parseExpression R p
    return .returnStmt (some value)

def parseCaseValue (R : LiteralReaders) (item : Node) : Parsed CaseValue :=
  match item.inner with
  | [] => .error (expectNext "case value expression")
  | [first] => do
    let firstExpr ← parseExpression R first
    return .single firstExpr
  | first :: second :: _ => do
    let firstExpr ← parseExpression R first
    let secondExpr ← parseExpression R second
    return .range firstExpr secondExpr

def parseCaseValues (R : LiteralReaders) (pair : Node) : Parsed (List CaseValue) :=
  (pair.inner.filter fun item => item.rule = .caseValue).mapM (parseCaseValue R)

mutual

def parseStatementList (R : LiteralReaders) : Node → Parsed (List Statement)
  | .node _ _ items => parseStatements R items

/-- The loop of `parseStatementList`. -/
def parseStatements (R : LiteralReaders) : List Node → Parsed (List Statement)
  | [] => .ok []
  | item :: items =>
    if item.rule = .statement then do
      let stmt ← parseStatement R item
      let rest ← parseStatements R items
      return stmt.toList ++ rest
    else parseStatements R items

def parseStatement (R : LiteralReaders) : Node → Parsed (Option Statement)
  | .node _ _ [] => .ok none
  | .node _ _ (inner :: _) =>
    match inner.rule with
    | .assignmentStmt => some <$> parseAssignment R inner
    | .ifStmt => some <$> parseIf R inner
    | .caseStmt => some <$> parseCase R inner
    | .forStmt => some <$> parseFor R inner
    | .whileStmt => some <$> parseWhile R inner
    | .repeatStmt => some <$> parseRepeat R inner
    | .exitStmt => .ok (some .exitStmt)
    | .continueStmt => .ok (some .continueStmt)
    | .returnStmt => some <$> parseReturn R inner
    | .callStmt => some <$> parseCallStmt R inner
    | .emptyStmt => .ok (some .empty)
    | _ => .ok none

def parseIf (R : LiteralReaders) : Node → Parsed Statement
  | .node _ _ [] => .error (expectNext "if condition")
  | .node _ _ [condPair] => do
    let _ ← parseExpression R condPair
    .error (expectNext "if then branch")
  | .node _ _ (condPair :: thenPair :: inner) => do
    let condition ← parseExpression R condPair
    let thenBranch ← parseStatementList R thenPair
    let (elsifBranches, elseBranch) ← parseIfItems R inner
    return .ifStmt condition thenBranch elsifBranches elseBranch

/-- The ELSIF branches in their order and the last ELSE branch. -/
def parseIfItems (R : LiteralReaders) :
    List Node → Parsed (List (Expression × List Statement) × Option (List Statement))
  | [] => .ok ([], none)
  | item :: items =>
    match item.rule with
    | .elsifBranch => do
      let branch ← parseElsif R item
      let (branches, elseBranch) ← parseIfItems R items
      return (branch :: branches, elseBranch)
    | .elseBranch => do
      let statements ← parseElse R "Expected else statements" item
      let (branches, elseBranch) ← parseIfItems R items
      return (branches, elseBranch.or (some statements))
    | _ => parseIfItems R items

def parseElsif (R : LiteralReaders) : Node → Parsed (Expression × List Statement)
  | .node _ _ [] => .error (expectNext "elsif condition")
  | .node _ _ [cond] => do
    let _ ← parseExpression R cond
    .error (expectNext "elsif statements")
  | .node _ _ (cond :: list :: _) => do
    let condition ← parseExpression R cond
    let statements ← parseStatementList R list
    return (condition, statements)

/-- The statements of an ELSE branch, with the error of the construct it belongs to. -/
def parseElse (R : LiteralReaders) : String → Node → Parsed (List Statement)
  | missing, .node _ _ [] => .error missing
  | _, .node _ _ (stmtList :: _) => parseStatementList R stmtList

def parseCase (R : LiteralReaders) : Node → Parsed Statement
  | .node _ _ [] => .error (expectNext "case selector")
  | .node _ _ (selPair :: inner) => do
    let selector ← parseExpression R selPair
    let (branches, elseBranch) ← parseCaseItems R inner
    return .caseStmt selector branches elseBranch

/-- The branches in their order and the last ELSE branch. -/
def parseCaseItems (R : LiteralReaders) :
    List Node → Parsed (List (List CaseValue × List Statement) × Option (List Statement))
  | [] => .ok ([], none)
  | item :: items =>
    match item.rule with
    | .caseBranch => do
      let branch ← parseCaseBranch R item
      let (branches, elseBranch) ← parseCaseItems R items
      return (branch :: branches, elseBranch)
    | .elseBranch => do
      let statements ← parseElse R "Expected else statements in case" item
      let (branches, elseBranch) ← parseCaseItems R items
      return (branches, elseBranch.or (some statements))
    | _ => parseCaseItems R items

def parseCaseBranch (R : LiteralReaders) : Node → Parsed (List CaseValue × List Statement)
  | .node _ _ [] => .error (expectNext "case values")
  | .node _ _ [valuesPair] => do
    let _ ← parseCaseValues R valuesPair
    .error (expectNext "case statements")
  | .node _ _ (valuesPair :: list :: _) => do
    let values ← parseCaseValues R valuesPair
    let statements ← parseStatementList R list
    return (values, statements)

def parseFor (R : LiteralReaders) : Node → Parsed Statement
  | .node _ _ [] => .error (expectNext "FOR loop variable")
  | .node _ _ [_] => .error (expectNext "FOR loop start expression")
  | .node _ _ [_, fromPair] => do
    let _ ← parseExpression R fromPair
    .error (expectNext "FOR loop end expression")
  | .node _ _ (name :: fromPair :: toPair :: inner) => do
    let start ← parseExpression R fromPair
    let stop ← parseExpression R toPair
    let (step, body) ← parseForItems R inner
    return .forStmt name.asStr start stop step (body.getD [])

/-- The last step expression and the last body. -/
def parseForItems (R : LiteralReaders) :
    List Node → Parsed (Option Expression × Option (List Statement))
  | [] => .ok (none, none)
  | item :: items =>
    match item.rule with
    | .expression => do
      let step ← parseExpression R item
      let (later, body) ← parseForItems R items
      return (later.or (some step), body)
    | .statementList => do
      let statements ← parseStatementList R item
      let (step, later) ← parseForItems R items
      return (step, later.or (some statements))
    | _ => parseForItems R items

def parseWhile (R : LiteralReaders) : Node → Parsed Statement
  | .node _ _ [] => .error (expectNext "WHILE condition")
  | .node _ _ [condPair] => do
    let _ ← parseExpression R condPair
    .error (expectNext "WHILE body")
  | .node _ _ (condPair :: bodyPair :: _) => do
    let condition ← parseExpression R condPair
    let body ← parseStatementList R bodyPair
    return .whileStmt condition body

def parseRepeat (R : LiteralReaders) : Node → Parsed Statement
  | .node _ _ [] => .error (expectNext "REPEAT body")
  | .node _ _ [bodyPair] => do
    let _ ← parseStatementList R bodyPair
    .error (expectNext "UNTIL condition")
  | .node _ _ (bodyPair :: untilPair :: _) => do
    let body ← parseStatementList R bodyPair
    let untilCond ← parseExpression R untilPair
    return .repeatStmt body untilCond

end

end VirtualPlc.Compiler

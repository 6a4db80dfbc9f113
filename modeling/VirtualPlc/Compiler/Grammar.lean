import VirtualPlc.Parsing.Peg

/-!
# The grammar of Structured Text

The rules of the grammar file for data types, statements and expressions, as parsing expressions. A
sequence of a rule that is not atomic skips blanks and comments between its parts, and a repetition
between its iterations; inside atomic rules, and inside blanks and comments, nothing is skipped.
Keywords are compared up to the case of ASCII letters.
-/

set_option autoImplicit false

namespace VirtualPlc.Compiler

open VirtualPlc.Parsing

/-- The rules. -/
inductive Rule where
  | whitespace
  | comment
  | lineComment
  | blockComment
  | dataType
  | elementaryType
  | stringType
  | arrayType
  | subrange
  | statementList
  | statement
  | assignmentStmt
  | ifStmt
  | elsifBranch
  | elseBranch
  | caseStmt
  | caseBranch
  | caseValueList
  | caseValue
  | forStmt
  | whileStmt
  | repeatStmt
  | exitStmt
  | continueStmt
  | returnStmt
  | callStmt
  | emptyStmt
  | expression
  | orExpr
  | orOp
  | xorExpr
  | xorOp
  | andExpr
  | andOp
  | comparison
  | comparisonOp
  | addExpr
  | addOp
  | mulExpr
  | mulOp
  | powerExpr
  | unaryExpr
  | unaryOp
  | primaryExpr
  | functionCall
  | argumentList
  | argument
  | variable
  | arrayIndex
  | fieldAccess
  | literal
  | boolLiteral
  | integerLiteral
  | realLiteral
  | stringLiteral
  | timeLiteral
  | timeValue
  | identifier
deriving DecidableEq, Repr

/-- A rule as error messages print it. -/
def Rule.debug : Rule → String
  | .whitespace => "WHITESPACE"
  | .comment => "COMMENT"
  | .lineComment => "line_comment"
  | .blockComment => "block_comment"
  | .dataType => "data_type"
  | .elementaryType => "elementary_type"
  | .stringType => "string_type"
  | .arrayType => "array_type"
  | .subrange => "subrange"
  | .statementList => "statement_list"
  | .statement => "statement"
  | .assignmentStmt => "assignment_stmt"
  | .ifStmt => "if_stmt"
  | .elsifBranch => "elsif_branch"
  | .elseBranch => "else_branch"
  | .caseStmt => "case_stmt"
  | .caseBranch => "case_branch"
  | .caseValueList => "case_value_list"
  | .caseValue => "case_value"
  | .forStmt => "for_stmt"
  | .whileStmt => "while_stmt"
  | .repeatStmt => "repeat_stmt"
  | .exitStmt => "exit_stmt"
  | .continueStmt => "continue_stmt"
  | .returnStmt => "return_stmt"
  | .callStmt => "call_stmt"
  | .emptyStmt => "empty_stmt"
  | .expression => "expression"
  | .orExpr => "or_expr"
  | .orOp => "or_op"
  | .xorExpr => "xor_expr"
  | .xorOp => "xor_op"
  | .andExpr => "and_expr"
  | .andOp => "and_op"
  | .comparison => "comparison"
  | .comparisonOp => "comparison_op"
  | .addExpr => "add_expr"
  | .addOp => "add_op"
  | .mulExpr => "mul_expr"
  | .mulOp => "mul_op"
  | .powerExpr => "power_expr"
  | .unaryExpr => "unary_expr"
  | .unaryOp => "unary_op"
  | .primaryExpr => "primary_expr"
  | .functionCall => "function_call"
  | .argumentList => "argument_list"
  | .argument => "argument"
  | .variable => "variable"
  | .arrayIndex => "array_index"
  | .fieldAccess => "field_access"
  | .literal => "literal"
  | .boolLiteral => "bool_literal"
  | .integerLiteral => "integer_literal"
  | .realLiteral => "real_literal"
  | .stringLiteral => "string_literal"
  | .timeLiteral => "time_literal"
  | .timeValue => "time_value"
  | .identifier => "identifier"

/-! ## Building blocks -/

/-- A string of the grammar. -/
def str (s : String) : Peg Rule := .terminal (.exact s.toList)

/-- A string compared up to the case of letters. -/
def word (s : String) : Peg Rule := .terminal (.anyCase s.toList)

/-- One character of a class. -/
def oneOf (p : Char → Bool) : Peg Rule := .terminal (.satisfying p)

/-- Any character. -/
def any : Peg Rule := oneOf fun _ => true

/-- What is skipped between the parts of a rule. -/
def skip : Peg Rule :=
  .seq (.star (.call .whitespace)) (.star (.seq (.call .comment) (.star (.call .whitespace))))

/-- Parts with blanks and comments between them. -/
def parts : List (Peg Rule) → Peg Rule
  | [] => .empty
  | [a] => a
  | a :: as => .seq a (.seq skip (parts as))

/-- Any number of iterations with blanks and comments between them. -/
def many (a : Peg Rule) : Peg Rule :=
  .opt (.seq a (.star (.seq skip a)))

/-- Parts of an atomic rule. -/
def adjacent : List (Peg Rule) → Peg Rule
  | [] => .empty
  | [a] => a
  | a :: as => .seq a (adjacent as)

/-- The first alternative that succeeds. -/
def firstOf : List (Peg Rule) → Peg Rule
  | [] => .neg .empty
  | [a] => a
  | a :: as => .choice a (firstOf as)

/-- One or more iterations in an atomic rule. -/
def some1 (a : Peg Rule) : Peg Rule := .seq a (.star a)

/-- A part and further ones, each after a separator. -/
def joined (sep item : Peg Rule) : Peg Rule :=
  parts [item, many (parts [sep, item])]

def isHexDigit (c : Char) : Bool :=
  c.isDigit || ('a' ≤ c && c ≤ 'f') || ('A' ≤ c && c ≤ 'F')

/-! ## The rules -/

/-- The body of each rule. -/
def ruleBody : Rule → Peg Rule
  | .whitespace => firstOf [str " ", str "\t", str "\r", str "\n"]
  | .comment => firstOf [.call .lineComment, .call .blockComment]
  | .lineComment => adjacent [str "//", .star (adjacent [.neg (str "\n"), any])]
  | .blockComment => adjacent [str "(*", .star (adjacent [.neg (str "*)"), any]), str "*)"]
  -- data types
  | .dataType =>
    firstOf [.call .arrayType, .call .stringType, .call .elementaryType, .call .identifier]
  | .elementaryType =>
    firstOf [word "BOOL", word "SINT", word "INT", word "DINT", word "LINT", word "USINT",
      word "UINT", word "UDINT", word "ULINT", word "REAL", word "LREAL", word "TIME", word "DATE",
      word "TIME_OF_DAY", word "TOD", word "DATE_AND_TIME", word "DT", word "BYTE", word "WORD",
      word "DWORD", word "LWORD"]
  | .stringType =>
    parts [firstOf [word "STRING", word "WSTRING"],
      .opt (parts [str "[", .call .integerLiteral, str "]"])]
  | .arrayType =>
    parts [word "ARRAY", str "[", .call .subrange, str "]", word "OF", .call .dataType]
  | .subrange => parts [.call .expression, str "..", .call .expression]
  -- statements
  | .statementList => many (.call .statement)
  | .statement =>
    parts [firstOf [.call .assignmentStmt, .call .ifStmt, .call .caseStmt, .call .forStmt,
      .call .whileStmt, .call .repeatStmt, .call .exitStmt, .call .continueStmt, .call .returnStmt,
      .call .callStmt, .call .emptyStmt], .opt (str ";")]
  | .assignmentStmt => parts [.call .variable, str ":=", .call .expression]
  | .ifStmt =>
    parts [word "IF", .call .expression, word "THEN", .call .statementList,
      many (.call .elsifBranch), .opt (.call .elseBranch), word "END_IF"]
  | .elsifBranch => parts [word "ELSIF", .call .expression, word "THEN", .call .statementList]
  | .elseBranch => parts [word "ELSE", .call .statementList]
  | .caseStmt =>
    parts [word "CASE", .call .expression, word "OF", .call .caseBranch, many (.call .caseBranch),
      .opt (.call .elseBranch), word "END_CASE"]
  | .caseBranch => parts [.call .caseValueList, str ":", .call .statementList]
  | .caseValueList => joined (str ",") (.call .caseValue)
  | .caseValue => parts [.call .expression, .opt (parts [str "..", .call .expression])]
  | .forStmt =>
    parts [word "FOR", .call .identifier, str ":=", .call .expression, word "TO",
      .call .expression, .opt (parts [word "BY", .call .expression]), word "DO",
      .call .statementList, word "END_FOR"]
  | .whileStmt =>
    parts [word "WHILE", .call .expression, word "DO", .call .statementList, word "END_WHILE"]
  | .repeatStmt =>
    parts [word "REPEAT", .call .statementList, word "UNTIL", .call .expression,
      word "END_REPEAT"]
  | .exitStmt => word "EXIT"
  | .continueStmt => word "CONTINUE"
  | .returnStmt => parts [word "RETURN", .opt (.call .expression)]
  | .callStmt => parts [.call .identifier, str "(", .opt (.call .argumentList), str ")"]
  | .emptyStmt => str ";"
  -- expressions
  | .expression => .call .orExpr
  | .orExpr => joined (.call .orOp) (.call .xorExpr)
  | .orOp => word "OR"
  | .xorExpr => joined (.call .xorOp) (.call .andExpr)
  | .xorOp => word "XOR"
  | .andExpr => joined (.call .andOp) (.call .comparison)
  | .andOp => firstOf [word "AND", str "&"]
  | .comparison => joined (.call .comparisonOp) (.call .addExpr)
  | .comparisonOp => firstOf [str "<>", str "<=", str ">=", str "<", str ">", str "="]
  | .addExpr => joined (.call .addOp) (.call .mulExpr)
  | .addOp => firstOf [str "+", str "-"]
  | .mulExpr => joined (.call .mulOp) (.call .powerExpr)
  | .mulOp => firstOf [str "*", str "/", word "MOD"]
  | .powerExpr => joined (str "**") (.call .unaryExpr)
  | .unaryExpr => parts [.opt (.call .unaryOp), .call .primaryExpr]
  | .unaryOp => firstOf [str "-", word "NOT"]
  | .primaryExpr =>
    firstOf [parts [str "(", .call .expression, str ")"], .call .functionCall, .call .literal,
      .call .variable]
  | .functionCall => parts [.call .identifier, str "(", .opt (.call .argumentList), str ")"]
  | .argumentList => joined (str ",") (.call .argument)
  | .argument => parts [.opt (parts [.call .identifier, str ":="]), .call .expression]
  | .variable => parts [.call .identifier, many (firstOf [.call .arrayIndex, .call .fieldAccess])]
  | .arrayIndex => parts [str "[", .call .expression, str "]"]
  | .fieldAccess => parts [str ".", .call .identifier]
  -- literals
  | .literal =>
    firstOf [.call .timeLiteral, .call .realLiteral, .call .integerLiteral, .call .stringLiteral,
      .call .boolLiteral]
  | .boolLiteral => firstOf [word "TRUE", word "FALSE"]
  | .integerLiteral =>
    firstOf [
      adjacent [str "2#", some1 (firstOf [oneOf fun c => '0' ≤ c && c ≤ '1', str "_"])],
      adjacent [str "8#", some1 (firstOf [oneOf fun c => '0' ≤ c && c ≤ '7', str "_"])],
      adjacent [str "16#", some1 (firstOf [oneOf isHexDigit, str "_"])],
      adjacent [oneOf Char.isDigit, .star (firstOf [oneOf Char.isDigit, str "_"])]]
  | .realLiteral =>
    adjacent [some1 (oneOf Char.isDigit), str ".", some1 (oneOf Char.isDigit),
      .opt (adjacent [firstOf [str "e", str "E"], .opt (firstOf [str "+", str "-"]),
        some1 (oneOf Char.isDigit)])]
  | .stringLiteral =>
    firstOf [adjacent [str "'", .star (adjacent [.neg (str "'"), any]), str "'"],
      adjacent [str "\"", .star (adjacent [.neg (str "\""), any]), str "\""]]
  | .timeLiteral => adjacent [firstOf [word "T#", word "TIME#"], .call .timeValue]
  | .timeValue =>
    some1 (adjacent [some1 (oneOf Char.isDigit),
      firstOf [str "d", str "h", str "m", str "s", str "ms", str "us", str "ns"]])
  | .identifier =>
    adjacent [firstOf [oneOf Char.isAlpha, str "_"],
      .star (firstOf [oneOf Char.isAlphanum, str "_"])]

/-- Which rules leave a node: blanks and comments leave none, atomic rules one without inner
nodes. -/
def ruleShape : Rule → Shape
  | .whitespace | .comment | .lineComment | .blockComment => .silent
  | .integerLiteral | .realLiteral | .stringLiteral | .timeLiteral | .timeValue | .identifier =>
    .token
  | _ => .visible

/-- Only a list of statements may be empty. -/
def ruleNullable : Rule → Bool
  | .statementList => true
  | _ => false

/-- An order in which a rule comes after the rules that it calls before anything is read. -/
def ruleRank : Rule → Nat
  | .whitespace | .lineComment | .blockComment => 0
  | .comment => 1
  | .identifier | .boolLiteral | .integerLiteral | .realLiteral | .stringLiteral | .timeValue
  | .timeLiteral | .orOp | .xorOp | .andOp | .comparisonOp | .addOp | .mulOp | .unaryOp
  | .arrayIndex | .fieldAccess | .elementaryType | .stringType | .arrayType => 2
  | .dataType => 3
  | .functionCall | .literal | .variable => 3
  | .primaryExpr => 4
  | .unaryExpr => 5
  | .powerExpr => 6
  | .mulExpr => 7
  | .addExpr => 8
  | .comparison => 9
  | .andExpr => 10
  | .xorExpr => 11
  | .orExpr => 12
  | .expression => 13
  | .argument | .caseValue | .subrange => 14
  | .argumentList | .caseValueList => 15
  | .caseBranch | .assignmentStmt | .ifStmt | .elsifBranch | .elseBranch | .caseStmt | .forStmt
  | .whileStmt | .repeatStmt | .exitStmt | .continueStmt | .returnStmt | .callStmt
  | .emptyStmt => 16
  | .statement => 17
  | .statementList => 18

/-- The grammar. No rule calls itself before it has read something, and every repetition reads
something in each iteration. -/
def grammar : Grammar Rule where
  shape := ruleShape
  body := ruleBody
  nullable := ruleNullable
  rank := ruleRank
  bound := 19
  rank_lt r := by cases r <;> decide
  nullable_body r := by cases r <;> decide
  guarded_body r := by cases r <;> decide

end VirtualPlc.Compiler

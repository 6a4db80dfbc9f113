import VirtualPlc.Compiler.Lexemes
import VirtualPlc.Parsing.Precedence

/-!
# Operator chains

A chain of operands and binary operators as a text spells it: blanks around every operator, an
operand with or without a unary operator, and in it a variable, an integer literal, a parenthesised
chain or a call whose arguments are chains. The tree that is meant is the grouped one, with the
levels of the operators as the language orders them.
-/

set_option autoImplicit false

namespace VirtualPlc.Compiler

open VirtualPlc.Parsing

/-! ## Operators -/

/-- How strong an operator binds, from `OR` up to `**`. -/
def BinaryOp.level : BinaryOp → Nat
  | .or => 0
  | .xor => 1
  | .and => 2
  | .eq | .ne | .lt | .le | .gt | .ge => 3
  | .add | .sub => 4
  | .mul | .div | .mod => 5
  | _ => 6

/-- The words of a binary operator: keywords in any case of their letters. -/
def Spells : BinaryOp → List Char → Prop
  | .or, w => sameWord "OR" w = true
  | .xor, w => sameWord "XOR" w = true
  | .and, w => sameWord "AND" w = true ∨ w = ['&']
  | .eq, w => w = ['=']
  | .ne, w => w = ['<', '>']
  | .lt, w => w = ['<']
  | .le, w => w = ['<', '=']
  | .gt, w => w = ['>']
  | .ge, w => w = ['>', '=']
  | .add, w => w = ['+']
  | .sub, w => w = ['-']
  | .mul, w => w = ['*']
  | .div, w => w = ['/']
  | .mod, w => sameWord "MOD" w = true
  | .pow, w => w = ['*', '*']
  | _, _ => False

/-- The words of a unary operator. -/
def SpellsUnary : UnaryOp → List Char → Prop
  | .neg, w => w = ['-']
  | .not, w => sameWord "NOT" w = true

/-- Blanks, maybe none. -/
def Blanks : Type := {g : List Char // g.all isBlank = true}

/-- Blanks, at least one. -/
def Spaces : Type := {g : List Char // g.all isBlank = true ∧ g ≠ []}

/-- A binary operator with the blanks around it. -/
structure OpText where
  op : BinaryOp
  before : Spaces
  word : List Char
  after : Spaces
  spelled : Spells op word

/-- A unary operator with the blanks after it; a keyword needs one. -/
structure SignText where
  op : UnaryOp
  word : List Char
  after : Blanks
  spelled : SpellsUnary op word
  apart : op = .not → after.1 ≠ []

def OpText.text (o : OpText) : List Char :=
  o.before.1 ++ (o.word ++ o.after.1)

def SignText.text (s : SignText) : List Char :=
  s.word ++ s.after.1

def OpText.level (o : OpText) : Nat := o.op.level

theorem OpText.level_lt (o : OpText) : o.level < 7 := by
  rw [level]
  cases o.op <;> decide

/-! ## Operands and chains -/

/-- An operand: a unary operator or none, and the text of the rest with what it stands for. -/
structure Operand where
  sign : Option SignText
  primary : List Char
  value : Expression

namespace Operand

def text (i : Operand) : List Char :=
  match i.sign with
  | none => i.primary
  | some s => s.text ++ i.primary

def expr (i : Operand) : Expression :=
  match i.sign with
  | none => i.value
  | some s => .unary s.op i.value

end Operand

/-- Operands joined by binary operators. -/
abbrev OpChain := Chain Operand OpText

/-- The text of operators with their right operands. -/
def restText (rest : List (OpText × Operand)) : List Char :=
  rest.flatMap fun b => b.1.text ++ b.2.text

/-- The text of a chain. -/
def chainText (c : OpChain) : List Char :=
  c.first.text ++ restText c.rest

/-- The expression that a tree over a chain stands for. -/
def treeExpr : OpTree Operand OpText → Expression
  | .leaf i => i.expr
  | .node l o r => .binary (treeExpr l) o.op (treeExpr r)

/-- The text under a tree. -/
def treeText : OpTree Operand OpText → List Char
  | .leaf i => i.text
  | .node l o r => treeText l ++ (o.text ++ treeText r)

/-- The expression that a chain means: its operators grouped by their levels, those of one level
to the left. -/
def chainExpr (c : OpChain) : Expression :=
  treeExpr (c.group OpText.level)

theorem treeText_eq (t : OpTree Operand OpText) : treeText t = chainText t.chain := by
  induction t with
  | leaf i => simp [treeText, chainText, restText, OpTree.chain, OpTree.first, OpTree.rest]
  | node l o r ihl ihr =>
    simp only [treeText, chainText, restText, OpTree.chain, OpTree.first, OpTree.rest,
      List.flatMap_append, List.flatMap_cons, List.append_assoc] at ihl ihr ⊢
    rw [ihl, ihr, List.append_assoc]

theorem treeText_extend (t : OpTree Operand OpText) (bs : List (OpText × OpTree Operand OpText)) :
    treeText (t.extend bs) = treeText t ++ bs.flatMap fun b => b.1.text ++ treeText b.2 := by
  induction bs using List.reverseRecOn with
  | nil => simp
  | append_singleton bs b ih =>
    obtain ⟨o, r⟩ := b
    rw [OpTree.extend_concat, treeText, ih]
    simp

theorem treeExpr_extend (t : OpTree Operand OpText) (bs : List (OpText × OpTree Operand OpText)) :
    treeExpr (t.extend bs) =
      bs.foldl (fun l b => .binary l b.1.op (treeExpr b.2)) (treeExpr t) := by
  induction bs generalizing t with
  | nil => rfl
  | cons b bs ih => exact ih _

/-! ## Arguments -/

/-- The name of a named argument, with the blanks around its `:=`. -/
structure ArgumentName where
  name : List Char
  before : Blanks
  after : Blanks
  valid : isIdentifier name = true

/-- An argument. -/
structure Argument where
  name : Option ArgumentName
  chain : OpChain

/-- The blanks around a comma. -/
structure Comma where
  before : Blanks
  after : Blanks

namespace Argument

def text (a : Argument) : List Char :=
  match a.name with
  | none => chainText a.chain
  | some n => n.name ++ (n.before.1 ++ (':' :: '=' :: (n.after.1 ++ chainText a.chain)))

def value (a : Argument) : Option String × Expression :=
  (a.name.map fun n => String.ofList n.name, chainExpr a.chain)

end Argument

/-- Arguments separated by commas. -/
abbrev Arguments := Chain Argument Comma

/-- The text of further arguments, each after its comma. -/
def argumentsRest (rest : List (Comma × Argument)) : List Char :=
  rest.flatMap fun b => b.1.before.1 ++ (',' :: (b.1.after.1 ++ b.2.text))

def argumentsText (args : Arguments) : List Char :=
  args.first.text ++ argumentsRest args.rest

/-! ## Operands of a program -/

/-- The texts of operands without their unary operators and the expressions they stand for: a
variable whose name begins with none of `NOT`, `TRUE` and `FALSE`, an integer literal with a value,
a chain in parentheses, and a call, of a name that does not begin with `NOT`, without arguments or
with a list of them. -/
inductive Primary : List Char → Expression → Prop
  | variable (name : List Char) : isIdentifier name = true → beginsWith "NOT" name = false →
      beginsWith "TRUE" name = false → beginsWith "FALSE" name = false →
      Primary name (.variable (String.ofList name))
  | literal (text : List Char) (v : Int) : IntegerText text → integerValue text = .ok v →
      Primary text (.literal (.integer v))
  | paren (before after : Blanks) (c : OpChain) :
      (∀ i ∈ c.operands, Primary i.primary i.value) →
      Primary ('(' :: (before.1 ++ (chainText c ++ (after.1 ++ [')'])))) (.paren (chainExpr c))
  | callEmpty (name : List Char) (before inside : Blanks) : isIdentifier name = true →
      beginsWith "NOT" name = false →
      Primary (name ++ (before.1 ++ ('(' :: (inside.1 ++ [')'])))) (.call (String.ofList name) [])
  | call (name : List Char) (before first last : Blanks) (args : Arguments) :
      isIdentifier name = true → beginsWith "NOT" name = false →
      (∀ a ∈ args.operands, ∀ i ∈ a.chain.operands, Primary i.primary i.value) →
      Primary (name ++ (before.1 ++ ('(' :: (first.1 ++ (argumentsText args ++
        (last.1 ++ [')'])))))) (.call (String.ofList name) (args.operands.map Argument.value))

/-- A chain all of whose operands are operands of a program. -/
def IsChain (c : OpChain) : Prop :=
  ∀ i ∈ c.operands, Primary i.primary i.value

end VirtualPlc.Compiler

import VirtualPlc.Compiler.Grouping
import VirtualPlc.Compiler.TypeChecker
import VirtualPlc.Compiler.TypeNames

/-!
# Printing and reading back

`print` writes an expression with parentheses only where the levels of its operators need them.
`print_reads`: the grammar accepts what is printed as a whole, and the expression that is built from
it is the printed one up to parentheses. It prints to the same text and gets the same type.
-/

set_option autoImplicit false

namespace VirtualPlc.Compiler

open VirtualPlc.Parsing VirtualPlc.Word

/-! ## The printer -/

/-- The word of an operator, none for an operator that the grammar does not have. -/
def BinaryOp.word : BinaryOp → List Char
  | .or => ['O', 'R']
  | .xor => ['X', 'O', 'R']
  | .and => ['A', 'N', 'D']
  | .eq => ['=']
  | .ne => ['<', '>']
  | .lt => ['<']
  | .le => ['<', '=']
  | .gt => ['>']
  | .ge => ['>', '=']
  | .add => ['+']
  | .sub => ['-']
  | .mul => ['*']
  | .div => ['/']
  | .mod => ['M', 'O', 'D']
  | .pow => ['*', '*']
  | .bitAnd | .bitOr | .bitXor | .shl | .shr => []

/-- The sign that is printed for a unary operator. -/
def UnaryOp.sign : UnaryOp → SignText
  | .neg => ⟨.neg, ['-'], ⟨[], rfl⟩, rfl, by decide⟩
  | .not => ⟨.not, ['N', 'O', 'T'], ⟨[' '], by decide⟩,
    (by decide : sameWord "NOT" ['N', 'O', 'T'] = true), by decide⟩

/-- The word of a truth value. -/
def boolText (v : Bool) : List Char :=
  if v then ['T', 'R', 'U', 'E'] else ['F', 'A', 'L', 'S', 'E']

/-- The text of a truth value or an integer. -/
def Literal.text : Literal → List Char
  | .bool v => boolText v
  | .integer v => Nat.toDigits 10 v.toNat
  | _ => []

/-- The truth values, and the integers that a literal can have. -/
def Literal.printable : Literal → Bool
  | .bool _ => true
  | .integer v => decide (0 ≤ v ∧ v < 2 ^ 63)
  | _ => false

/-- How strong an expression binds: unary operators above the binary ones, then what needs no
operator, and parentheses. -/
def Expression.strength : Expression → Nat
  | .binary _ op _ => op.level
  | .unary .. => 7
  | .paren _ => 9
  | _ => 8

/-- The text of an expression where at least the strength `k` is needed. -/
def enclose (k : Nat) (e : Expression) (text : List Char) : List Char :=
  if k ≤ e.strength then text else '(' :: (text ++ [')'])

/-- What is read from that text. -/
def enclosed (k : Nat) (e e' : Expression) : Expression := if k ≤ e.strength then e' else .paren e'

/-- The name of a named argument. -/
def nameText : Option String → List Char
  | none => []
  | some name => name.toList ++ [' ', ':', '=', ' ']

/-- Texts with commas between them. -/
def listText : List (List Char) → List Char
  | [] => []
  | text :: rest => text ++ rest.flatMap fun text => ',' :: ' ' :: text

mutual
/-- The text of an expression. A blank stands before each index or field, and an index is in
parentheses. -/
def Expression.print : Expression → List Char
  | .literal lit => lit.text
  | .variable name => name.toList
  | .arrayAccess array index =>
    array.print ++ ' ' :: '[' :: (enclose 9 index index.print ++ [']'])
  | .fieldAccess object field => object.print ++ ' ' :: '.' :: field.toList
  | .binary left op right =>
    enclose op.level left left.print ++
      ' ' :: (op.word ++ ' ' :: enclose (op.level + 1) right right.print)
  | .unary op operand => op.sign.text ++ enclose 8 operand operand.print
  | .call name arguments => name.toList ++ '(' :: (listText (printArguments arguments) ++ [')'])
  | .paren inner => '(' :: (inner.print ++ [')'])

/-- The texts of arguments. -/
def printArguments : List (Option String × Expression) → List (List Char)
  | [] => []
  | (name, value) :: rest => (nameText name ++ value.print) :: printArguments rest
end

mutual
/-- The expression with the parentheses that are printed. -/
def Expression.parenthesised : Expression → Expression
  | .literal lit => .literal lit
  | .variable name => .variable name
  | .arrayAccess array index =>
    .arrayAccess array.parenthesised (enclosed 9 index index.parenthesised)
  | .fieldAccess object field => .fieldAccess object.parenthesised field
  | .binary left op right =>
    .binary (enclosed op.level left left.parenthesised) op
      (enclosed (op.level + 1) right right.parenthesised)
  | .unary op operand => .unary op (enclosed 8 operand operand.parenthesised)
  | .call name arguments => .call name (parenthesisedArguments arguments)
  | .paren inner => .paren inner.parenthesised

def parenthesisedArguments :
    List (Option String × Expression) → List (Option String × Expression)
  | [] => []
  | (name, value) :: rest => (name, value.parenthesised) :: parenthesisedArguments rest
end

mutual
/-- The expression without its parentheses. -/
def Expression.bare : Expression → Expression
  | .literal lit => .literal lit
  | .variable name => .variable name
  | .arrayAccess array index => .arrayAccess array.bare index.bare
  | .fieldAccess object field => .fieldAccess object.bare field
  | .binary left op right => .binary left.bare op right.bare
  | .unary op operand => .unary op operand.bare
  | .call name arguments => .call name (bareArguments arguments)
  | .paren inner => inner.bare

def bareArguments : List (Option String × Expression) → List (Option String × Expression)
  | [] => []
  | (name, value) :: rest => (name, value.bare) :: bareArguments rest
end

/-- A name that is read as a variable. -/
def isVariableName (name : List Char) : Bool :=
  isIdentifier name && !beginsWith "NOT" name && !beginsWith "TRUE" name && !beginsWith "FALSE" name

/-- A variable, or an index or a field of one. -/
def Expression.isPlace : Expression → Bool
  | .variable _ => true
  | .arrayAccess array _ => array.isPlace
  | .fieldAccess object _ => object.isPlace
  | _ => false

mutual
/-- Expressions that have a text: their names are identifiers that no keyword hides, their integers
are those of a literal, and indices and fields belong to variables. -/
def Expression.printable : Expression → Bool
  | .literal lit => lit.printable
  | .variable name => isVariableName name.toList
  | .arrayAccess array index => array.isPlace && array.printable && index.printable
  | .fieldAccess object field => object.isPlace && object.printable && isIdentifier field.toList
  | .binary left op right => !op.word.isEmpty && left.printable && right.printable
  | .unary _ operand => operand.printable
  | .call name arguments =>
    isIdentifier name.toList && !beginsWith "NOT" name.toList && printableArguments arguments
  | .paren inner => inner.printable

def printableArguments : List (Option String × Expression) → Bool
  | [] => true
  | (name, value) :: rest =>
    (name.map String.toList).all isIdentifier && value.printable && printableArguments rest
end

/-! ## What is read back -/

variable {R : LiteralReaders}

theorem spells_word {op : BinaryOp} (h : op.word.isEmpty = false) : Spells op op.word := by
  cases op with
  | or => exact (by decide : sameWord "OR" ['O', 'R'] = true)
  | xor => exact (by decide : sameWord "XOR" ['X', 'O', 'R'] = true)
  | and => exact .inl (by decide)
  | mod => exact (by decide : sameWord "MOD" ['M', 'O', 'D'] = true)
  | eq | ne | lt | le | gt | ge | add | sub | mul | div | pow => rfl
  | bitAnd | bitOr | bitXor | shl | shr => cases h

theorem space_isBlank : [' '].all isBlank = true ∧ [' '] ≠ [] :=
  ⟨rfl, List.cons_ne_nil _ _⟩

/-- An operator between blanks. -/
def spacedOp (op : BinaryOp) (h : op.word.isEmpty = false) : OpText :=
  ⟨op, ⟨[' '], space_isBlank⟩, op.word, ⟨[' '], space_isBlank⟩, spells_word h⟩

theorem boolLiteral_reads (v : Bool) (rest : List Char) :
    Reads grammar (.call .boolLiteral) (boolText v ++ rest) [.node .boolLiteral (boolText v) []]
      rest := by
  apply visible_reads rfl
  cases v with
  | true => exact Reads.choice_left _ (word_reads (by decide) rest)
  | false =>
    refine Reads.choice_right (word_fails ?_) (word_reads (by decide) rest)
    exact beginsWith_of_head (d := 'T') (by simp) (by decide) _

/-- A truth value is read as a literal. -/
theorem primaryReads_bool (v : Bool) : PrimaryReads R (boolText v) (.literal (.bool v)) := by
  have hname : isIdentifier (boolText v) = true := by cases v <;> decide
  have hnot : beginsWith "NOT" (boolText v) = false := by cases v <;> decide
  obtain ⟨c, t, hhead, hc⟩ := identifier_head hname
  have hchar := isNameChar_of_isNameStart hc
  refine ⟨⟨c, t, hhead, by simp [hchar]⟩, fun rest => ?_, fun rest hrest => ?_,
    fun rest hrest => ?_, fun rest hrest => ?_⟩
  · rw [hhead]
    exact noComment_of_nameChar hchar _
  · exact unaryOp_fails_of_name hname hnot hrest.ends.name
  · exact unnamed_of_name hname hrest.ends.name (hrest.stops.mono fun c hc => by simp [hc])
      hrest.noComment
  · -- neither a parenthesis nor a call nor another literal comes first
    obtain ⟨htime, hreal, hinteger, hstring⟩ := valueLiterals_fail hname hrest.ends
    have hliteral := Reads.call (r := Rule.literal) (Reads.choice_right htime
      (Reads.choice_right hreal (Reads.choice_right hinteger (Reads.choice_right hstring
        (boolLiteral_reads v rest)))))
    have hparen : Stops (fun c => c == '(') (boolText v ++ rest) := by
      rw [hhead]
      have hne := isNameChar_ne hchar (d := '(') (by decide)
      simpa using hne
    have hcall := functionCall_fails hname hrest.ends.name
      (hrest.stops.mono fun c hc => by simp [hc]) hrest.noComment
    refine ⟨_, rest, Reads.call (r := Rule.primaryExpr) (Reads.choice_right (paren_fails hparen)
      (Reads.choice_right hcall (Reads.choice_left _ hliteral))), .inl rfl, rfl, ?_⟩
    cases v with
    | true => rfl
    | false => rfl

theorem primaryReads_printable {lit : Literal} (h : lit.printable = true) :
    PrimaryReads R lit.text (.literal lit) := by
  cases lit with
  | bool v => exact primaryReads_bool v
  | integer v =>
    obtain ⟨hlow, hhigh⟩ := of_decide_eq_true h
    have hvalue : integerValue (Nat.toDigits 10 v.toNat) = .ok v := by
      rw [integerValue_toDigits, if_pos (by omega), Int.toNat_of_nonneg hlow]
    exact primaryReads_literal (integerText_toDigits v.toNat) hvalue
  | real _ | string _ | time _ | date _ _ _ | timeOfDay _ | dateTime _ _ _ _ _ _ _ => cases h

/-! ## Parentheses -/

/-- A tree over the printed text: it is grouped as the text is read, and stands for the expression
with its printed parentheses. -/
structure Stands (R : LiteralReaders) (text : List Char) (value : Expression) (k : Nat)
    (t : OpTree Operand OpText) : Prop where
  text_eq : treeText t = text
  expr_eq : treeExpr t = value
  grouped : t.Grouped OpText.level
  above : t.Above OpText.level k
  leaves : ∀ i ∈ t.leaves, OperandReads R i

/-- A single operand. -/
theorem stands_leaf {i : Operand} (h : OperandReads R i) (k : Nat) :
    Stands R i.text i.expr k (.leaf i) where
  text_eq := rfl
  expr_eq := rfl
  grouped := trivial
  above := trivial
  leaves := fun j hj => by rwa [List.mem_singleton.1 hj]

theorem stands_primary {text : List Char} {value : Expression} (h : PrimaryReads R text value)
    (k : Nat) : ∃ t, Stands R text value k t :=
  ⟨_, stands_leaf (i := ⟨none, text, value⟩) (operandReads h) k⟩

/-- A tree in parentheses is one operand. -/
theorem Stands.paren {text : List Char} {value : Expression} {k : Nat} {t : OpTree Operand OpText}
    (h : Stands R text value k t) : PrimaryReads R ('(' :: (text ++ [')'])) (.paren value) := by
  have hoperands : ∀ i ∈ t.chain.operands, OperandReads R i := by
    rw [OpTree.chain_operands]
    exact h.leaves
  have hread := primaryReads_paren hoperands ⟨[], rfl⟩ ⟨[], rfl⟩
  rw [← treeText_eq, h.text_eq, chainExpr, ← h.grouped.eq_group, h.expr_eq] at hread
  exact hread

/-- A printed expression is read at its strength, and as one operand where it needs no operator. -/
structure Printed (R : LiteralReaders) (e : Expression) : Prop where
  stands : ∃ t, Stands R e.print e.parenthesised e.strength t
  primary : 8 ≤ e.strength → PrimaryReads R e.print e.parenthesised

theorem Printed.of_primary {e : Expression} (h : PrimaryReads R e.print e.parenthesised) :
    Printed R e := ⟨stands_primary h _, fun _ => h⟩

/-- Where a strength is needed, parentheses are printed if they have to be. -/
theorem Printed.enclose {e : Expression} (h : Printed R e) (k : Nat) :
    ∃ t, Stands R (enclose k e e.print) (enclosed k e e.parenthesised) k t := by
  obtain ⟨t, ht⟩ := h.stands
  rw [Compiler.enclose, enclosed]
  by_cases hk : k ≤ e.strength
  · rw [if_pos hk, if_pos hk]
    exact ⟨t, ht.text_eq, ht.expr_eq, ht.grouped, ht.above.mono hk, ht.leaves⟩
  · rw [if_neg hk, if_neg hk]
    exact stands_primary ht.paren k

theorem Printed.enclose_primary {e : Expression} (h : Printed R e) {k : Nat} (hk : 8 ≤ k) :
    PrimaryReads R (Compiler.enclose k e e.print) (enclosed k e e.parenthesised) := by
  rw [Compiler.enclose, enclosed]
  by_cases hk' : k ≤ e.strength
  · rw [if_pos hk', if_pos hk']
    exact h.primary (Nat.le_trans hk hk')
  · rw [if_neg hk', if_neg hk']
    obtain ⟨t, ht⟩ := h.stands
    exact ht.paren

theorem Printed.paren {e : Expression} (h : Printed R e) : Printed R (.paren e) := by
  obtain ⟨t, ht⟩ := h.stands
  exact .of_primary ht.paren

theorem Printed.unary {e : Expression} (h : Printed R e) (op : UnaryOp) :
    Printed R (.unary op e) := by
  have hoperand : OperandReads R ⟨some op.sign, Compiler.enclose 8 e e.print,
      enclosed 8 e e.parenthesised⟩ := operandReads (h.enclose_primary (Nat.le_refl 8))
  have htext : Operand.text ⟨some op.sign, Compiler.enclose 8 e e.print,
      enclosed 8 e e.parenthesised⟩ = Expression.print (.unary op e) := by
    rw [Expression.print]
    rfl
  have hexpr : Operand.expr ⟨some op.sign, Compiler.enclose 8 e e.print,
      enclosed 8 e e.parenthesised⟩ = Expression.parenthesised (.unary op e) := by
    rw [Expression.parenthesised]
    cases op with
    | neg | not => rfl
  have hstands := stands_leaf hoperand 7
  rw [htext, hexpr] at hstands
  refine ⟨⟨_, hstands⟩, fun hstrength => ?_⟩
  have hseven : 8 ≤ 7 := hstrength
  omega

theorem Printed.binary {left right : Expression} (hleft : Printed R left) (hright : Printed R right)
    {op : BinaryOp} (hop : op.word.isEmpty = false) : Printed R (.binary left op right) := by
  obtain ⟨l, hl⟩ := hleft.enclose op.level
  obtain ⟨r, hr⟩ := hright.enclose (op.level + 1)
  have hlevel : op.level < 7 := (spacedOp op hop).level_lt
  refine ⟨⟨.node l (spacedOp op hop) r, ?_⟩, fun hstrength => ?_⟩
  · constructor
    case text_eq =>
      rw [treeText, hl.text_eq, hr.text_eq, Expression.print]
      simp [OpText.text, spacedOp]
    case expr_eq => rw [treeExpr, hl.expr_eq, hr.expr_eq, Expression.parenthesised]; rfl
    case grouped => exact ⟨hl.grouped, hr.grouped, hl.above, hr.above⟩
    case above => exact Nat.le_refl _
    case leaves =>
      intro i hi
      rcases List.mem_append.1 hi with h | h
      · exact hl.leaves i h
      · exact hr.leaves i h
  · have hstrength' : 8 ≤ op.level := hstrength
    omega

/-! ## Indices and fields -/

/-- A text is read as one index or field, which makes `f x` of what it stands after. -/
structure SuffixReads (R : LiteralReaders) (text : List Char) (f : Expression → Expression) :
    Prop where
  head : ∃ c t, text = c :: t ∧ (c = '[' ∨ c = '.')
  reads : ∀ rest, Stops isNameChar rest → ∃ p,
    Reads grammar (firstOf [.call .arrayIndex, .call .fieldAccess]) (text ++ rest) [p] rest ∧
      ∀ x, parseAccess R x p = .ok (f x)

theorem suffixReads_index {text : List Char} {value : Expression} (h : PrimaryReads R text value) :
    SuffixReads R ('[' :: (text ++ [']'])) fun x => .arrayAccess x value := by
  refine ⟨⟨'[', _, rfl, .inl rfl⟩, fun rest _ => ?_⟩
  have hoperand : OperandReads R ⟨none, text, value⟩ := operandReads h
  have hends : BoundEnds (']' :: rest) := .inr ⟨rest, rfl⟩
  have hfollows : Follows (']' :: rest) := by
    have htrim : trim (']' :: rest) = ']' :: rest :=
      trim_of_stops ((stops_cons _ _ _).2 (by decide))
    refine ⟨(stops_cons _ _ _).2 (by decide), ?_, ?_⟩
    · rw [htrim]
      exact (stops_cons _ _ _).2 (by decide)
    · rw [htrim]
      exact noComment_of_ne (by decide) (by decide) rest
  obtain ⟨p, w, hread, hw, hparse⟩ := hoperand.reads _ hfollows
  have hw' : w = ']' :: rest := by
    rcases hw with rfl | rfl
    · rfl
    · exact trim_of_stops ((stops_cons _ _ _).2 (by decide))
  subst hw'
  obtain ⟨q, hwhole, hsame⟩ := single_reads hread hends.skip hends.op_fails
  have hskip : Reads grammar skip (text ++ ']' :: rest) [] (text ++ ']' :: rest) := by
    have hskip := skip_reads (s := text ++ ']' :: rest) (by rw [h.trim_eq]; exact h.noComment _)
    rwa [h.trim_eq] at hskip
  have hbody : Reads grammar (ruleBody .arrayIndex) ('[' :: (text ++ ']' :: rest)) [q] rest :=
    Reads.seq (str_reads (by simp [afterPrefix])) (Reads.seq hskip (Reads.seq hwhole
      (Reads.seq hends.skip (str_reads (by simp [afterPrefix])))))
  have hindex : parseExpression R q = .ok value := (hsame R).trans hparse
  rw [show '[' :: (text ++ [']']) ++ rest = '[' :: (text ++ ']' :: rest) by simp]
  refine ⟨_, Reads.choice_left _ (Reads.call (r := Rule.arrayIndex) hbody), fun x => ?_⟩
  show parseAccess R x (.node .arrayIndex _ [q]) = _
  rw [parseAccess, hindex]
  rfl

theorem suffixReads_field {field : List Char} (h : isIdentifier field = true) :
    SuffixReads R ('.' :: field) fun x => .fieldAccess x (String.ofList field) := by
  refine ⟨⟨'.', _, rfl, .inr rfl⟩, fun rest hrest => ?_⟩
  obtain ⟨c, t, hhead, hc⟩ := identifier_head h
  have hchar := isNameChar_of_isNameStart hc
  have hskip : Reads grammar skip (field ++ rest) [] (field ++ rest) := by
    rw [hhead]
    exact skip_nothing (by
      by_contra hblank
      rw [not_nameChar_of_blank (by simpa using hblank)] at hchar
      cases hchar) (isNameChar_ne hchar (by decide)) (isNameChar_ne hchar (by decide)) _
  have hbody : Reads grammar (ruleBody .fieldAccess) ('.' :: (field ++ rest))
      [.node .identifier field []] rest :=
    Reads.seq (str_reads (by simp [afterPrefix])) (Reads.seq hskip (identifier_reads h hrest))
  have hindex : Fails grammar (.call .arrayIndex) ('.' :: (field ++ rest)) :=
    Fails.call (Fails.seq_left _ (str_fails (by simp [afterPrefix])))
  exact ⟨_, Reads.choice_right hindex (Reads.call (r := Rule.fieldAccess) hbody), fun x => rfl⟩

/-- Indices and fields, each after a blank. -/
def suffixText (ss : List (List Char × (Expression → Expression))) : List Char :=
  ss.flatMap fun s => ' ' :: s.1

/-- What the suffixes make of an expression. -/
def applySuffixes (x : Expression) (ss : List (List Char × (Expression → Expression))) :
    Expression :=
  ss.foldl (fun x s => s.2 x) x

/-- What comes after a name: the suffixes, and then what may follow an operand. -/
theorem suffixText_follows {ss : List (List Char × (Expression → Expression))}
    (hss : ∀ s ∈ ss, SuffixReads R s.1 s.2) {rest : List Char} (hrest : Follows rest) :
    TokenEnds (suffixText ss ++ rest) ∧
      Stops (fun c => c == '(' || c == ':') (trim (suffixText ss ++ rest)) ∧
      noComment (trim (suffixText ss ++ rest)) = true := by
  cases ss with
  | nil =>
    exact ⟨hrest.ends, hrest.stops.mono fun c hc => by simp only [Bool.or_eq_true] at hc ⊢; tauto,
      hrest.noComment⟩
  | cons s ss =>
    obtain ⟨c, t, htext, hc⟩ := (hss s List.mem_cons_self).head
    have hsuffix :
        suffixText (s :: ss) ++ rest = [' '] ++ (c :: (t ++ (suffixText ss ++ rest))) := by
      simp [suffixText, htext]
    have hblank : isBlank c = false := by rcases hc with rfl | rfl <;> decide
    have htrim : trim (suffixText (s :: ss) ++ rest) = c :: (t ++ (suffixText ss ++ rest)) := by
      rw [hsuffix, trim_append_of_blank (by decide)]
      exact trim_of_stops ((stops_cons _ _ _).2 hblank)
    rw [htrim]
    refine ⟨?_, ?_, ?_⟩
    · rw [hsuffix]
      exact tokenEnds_of_blank (by decide) _
    · rw [stops_cons]
      rcases hc with rfl | rfl <;> decide
    · exact noComment_of_ne (by rcases hc with rfl | rfl <;> decide)
        (by rcases hc with rfl | rfl <;> decide) _

/-- One suffix, with the blank before it. -/
theorem suffix_step {s : List Char × (Expression → Expression)}
    {ss : List (List Char × (Expression → Expression))}
    (hss : ∀ s' ∈ s :: ss, SuffixReads R s'.1 s'.2) {rest : List Char} (hrest : Follows rest) :
    ∃ p, Reads grammar skip (suffixText (s :: ss) ++ rest) [] (s.1 ++ (suffixText ss ++ rest)) ∧
      Reads grammar (firstOf [.call .arrayIndex, .call .fieldAccess])
        (s.1 ++ (suffixText ss ++ rest)) [p] (suffixText ss ++ rest) ∧
      ∀ x, parseAccess R x p = .ok (s.2 x) := by
  have hfirst := hss s List.mem_cons_self
  obtain ⟨hends, -, -⟩ :=
    suffixText_follows (fun s' hs' => hss s' (List.mem_cons_of_mem s hs')) hrest
  obtain ⟨p, hread, hparse⟩ := hfirst.reads _ hends.name
  obtain ⟨-, -, hcomment⟩ := suffixText_follows hss hrest
  have hskip := skip_reads hcomment
  have htrim : trim (suffixText (s :: ss) ++ rest) = s.1 ++ (suffixText ss ++ rest) := by
    obtain ⟨c, t, htext, hc⟩ := hfirst.head
    have hsuffix : suffixText (s :: ss) ++ rest = [' '] ++ (s.1 ++ (suffixText ss ++ rest)) := by
      simp [suffixText]
    rw [hsuffix, trim_append_of_blank (by decide), htext]
    exact trim_of_stops ((stops_cons _ _ _).2 (by rcases hc with rfl | rfl <;> decide))
  rw [htrim] at hskip
  exact ⟨p, hskip, hread, hparse⟩

/-- The loop over the suffixes. -/
theorem suffixes_loop {ss : List (List Char × (Expression → Expression))}
    (hss : ∀ s ∈ ss, SuffixReads R s.1 s.2) {rest : List Char} (hrest : Follows rest) :
    ∃ ps, Reads grammar (.star (.seq skip (firstOf [.call .arrayIndex, .call .fieldAccess])))
        (suffixText ss ++ rest) ps rest ∧
      ∀ x, parseAccesses R x ps = .ok (applySuffixes x ss) := by
  induction ss with
  | nil =>
    have hindex : Fails grammar (.call .arrayIndex) (trim rest) :=
      Fails.call (Fails.seq_left _ (str_fails_of_head (d := '[') (by simp)
        (hrest.stops.mono fun c hc => by simp [hc])))
    have hfield : Fails grammar (.call .fieldAccess) (trim rest) :=
      Fails.call (Fails.seq_left _ (str_fails_of_head (d := '.') (by simp)
        (hrest.stops.mono fun c hc => by simp [hc])))
    exact ⟨[], Reads.star_stop (Fails.seq_right (skip_reads hrest.noComment)
      (Fails.choice hindex hfield)), fun x => rfl⟩
  | cons s ss ih =>
    obtain ⟨ps, hstar, hfold⟩ := ih fun s' hs' => hss s' (List.mem_cons_of_mem s hs')
    obtain ⟨p, hskip, hread, hparse⟩ := suffix_step hss hrest
    refine ⟨_, Reads.star_step (Reads.seq hskip hread) hstar, fun x => ?_⟩
    show parseAccesses R x (p :: ps) = _
    rw [parseAccesses, hparse]
    exact hfold (s.2 x)

/-- A variable is read with its suffixes. -/
theorem place_reads {name : List Char} (hname : isIdentifier name = true)
    {ss : List (List Char × (Expression → Expression))} (hss : ∀ s ∈ ss, SuffixReads R s.1 s.2)
    {rest : List Char} (hrest : Follows rest) :
    ∃ t ps w, Reads grammar (.call .variable) (name ++ (suffixText ss ++ rest))
        [.node .variable t (.node .identifier name [] :: ps)] w ∧
      (w = rest ∨ w = trim rest) ∧ ∀ x, parseAccesses R x ps = .ok (applySuffixes x ss) := by
  cases ss with
  | nil =>
    obtain ⟨t, hread⟩ := variable_reads hname hrest.ends.name
      (hrest.stops.mono fun c hc => by simp only [Bool.or_eq_true] at hc ⊢; tauto) hrest.noComment
    exact ⟨t, [], _, hread, .inr rfl, fun x => rfl⟩
  | cons s ss =>
    obtain ⟨p, hskip, hread, hparse⟩ := suffix_step hss hrest
    obtain ⟨ps, hstar, hfold⟩ :=
      suffixes_loop (fun s' hs' => hss s' (List.mem_cons_of_mem s hs')) hrest
    obtain ⟨hends, -, -⟩ := suffixText_follows hss hrest
    have hbody : Reads grammar (ruleBody .variable) (name ++ (suffixText (s :: ss) ++ rest))
        (.node .identifier name [] :: p :: ps) rest :=
      Reads.seq (identifier_reads hname hends.name)
        (Reads.seq hskip (Reads.opt_some (Reads.seq hread hstar)))
    refine ⟨_, _, rest, Reads.call (r := Rule.variable) hbody, .inl rfl, fun x => ?_⟩
    rw [parseAccesses, hparse]
    exact hfold (s.2 x)

/-- A variable with its suffixes is read as one operand. -/
theorem primaryReads_place {name : List Char} (hname : isVariableName name = true)
    {ss : List (List Char × (Expression → Expression))} (hss : ∀ s ∈ ss, SuffixReads R s.1 s.2) :
    PrimaryReads R (name ++ suffixText ss)
      (applySuffixes (.variable (String.ofList name)) ss) := by
  simp only [isVariableName, Bool.and_eq_true, Bool.not_eq_true'] at hname
  obtain ⟨⟨⟨hname, hnot⟩, htrue⟩, hfalse⟩ := hname
  obtain ⟨c, t, hhead, hc⟩ := identifier_head hname
  have hchar := isNameChar_of_isNameStart hc
  refine ⟨⟨c, t ++ suffixText ss, by simp [hhead], by simp [hchar]⟩, fun rest => ?_,
    fun rest hrest => ?_, fun rest hrest => ?_, fun rest hrest => ?_⟩
  · rw [List.append_assoc, hhead]
    exact noComment_of_nameChar hchar _
  · obtain ⟨hends, -, -⟩ := suffixText_follows hss hrest
    rw [List.append_assoc]
    exact unaryOp_fails_of_name hname hnot hends.name
  · obtain ⟨hends, hstop, hcomment⟩ := suffixText_follows hss hrest
    rw [List.append_assoc]
    exact unnamed_of_name hname hends.name (hstop.mono fun c hc => by simp [hc]) hcomment
  · obtain ⟨hends, hstop, hcomment⟩ := suffixText_follows hss hrest
    obtain ⟨t, ps, w, hread, hw, hparse⟩ := place_reads hname hss hrest
    have hparen : Stops (fun c => c == '(') (name ++ (suffixText ss ++ rest)) := by
      rw [hhead]
      have hne := isNameChar_ne hchar (d := '(') (by decide)
      simpa using hne
    have hcall := functionCall_fails hname hends.name (hstop.mono fun c hc => by simp [hc]) hcomment
    have hbody : Reads grammar (ruleBody .primaryExpr) (name ++ (suffixText ss ++ rest)) _ w :=
      Reads.choice_right (paren_fails hparen) (Reads.choice_right hcall
        (Reads.choice_right (literal_fails hname htrue hfalse hends) hread))
    rw [List.append_assoc]
    exact ⟨_, w, Reads.call (r := Rule.primaryExpr) hbody, hw, rfl, hparse _⟩

/-- The expression is a variable with suffixes. -/
def PlaceText (R : LiteralReaders) (e : Expression) : Prop :=
  ∃ name ss, isVariableName name = true ∧ (∀ s ∈ ss, SuffixReads R s.1 s.2) ∧
    e.print = name ++ suffixText ss ∧
    e.parenthesised = applySuffixes (.variable (String.ofList name)) ss

theorem PlaceText.printed {e : Expression} (h : PlaceText R e) : Printed R e := by
  obtain ⟨name, ss, hname, hss, htext, hexpr⟩ := h
  apply Printed.of_primary
  rw [htext, hexpr]
  exact primaryReads_place hname hss

/-- One more suffix. -/
theorem PlaceText.suffix {e e' : Expression} (h : PlaceText R e) {text : List Char}
    {f : Expression → Expression} (hsuffix : SuffixReads R text f)
    (htext : e'.print = e.print ++ ' ' :: text) (hexpr : e'.parenthesised = f e.parenthesised) :
    PlaceText R e' := by
  obtain ⟨name, ss, hname, hss, hprint, hvalue⟩ := h
  refine ⟨name, ss ++ [(text, f)], hname, fun s hs => ?_, ?_, ?_⟩
  · rcases List.mem_append.1 hs with hs | hs
    · exact hss s hs
    · rw [List.mem_singleton.1 hs]
      exact hsuffix
  · rw [htext, hprint]
    simp [suffixText]
  · rw [hexpr, hvalue]
    simp [applySuffixes]

/-! ## Calls -/

theorem Printed.argument {value : Expression} (h : Printed R value) {name : Option String}
    (hname : (name.map String.toList).all isIdentifier = true) :
    ∃ a : Argument, ArgumentReads R a ∧ a.text = nameText name ++ value.print ∧
      a.value = (name, value.parenthesised) := by
  obtain ⟨t, ht⟩ := h.stands
  have hreads : ∀ i ∈ t.chain.operands, OperandReads R i := by
    rw [OpTree.chain_operands]
    exact ht.leaves
  have htext : chainText t.chain = value.print := (treeText_eq t).symm.trans ht.text_eq
  have hexpr : chainExpr t.chain = value.parenthesised := by
    rw [chainExpr, ← ht.grouped.eq_group, ht.expr_eq]
  cases name with
  | none => exact ⟨⟨none, t.chain⟩, hreads, htext, by rw [Argument.value, hexpr]; rfl⟩
  | some name =>
    refine ⟨⟨some ⟨name.toList, ⟨[' '], by decide⟩, ⟨[' '], by decide⟩, hname⟩, t.chain⟩,
      hreads, ?_, ?_⟩
    · rw [Argument.text, htext]
      simp [nameText]
    · rw [Argument.value, hexpr]
      simp

/-- A name and printed arguments are read as a call. -/
theorem primaryReads_printedCall {name : List Char} (hname : isIdentifier name = true)
    (hnot : beginsWith "NOT" name = false) (as : List Argument)
    (has : ∀ a ∈ as, ArgumentReads R a) :
    PrimaryReads R (name ++ '(' :: (listText (as.map Argument.text) ++ [')']))
      (.call (String.ofList name) (as.map Argument.value)) := by
  cases as with
  | nil => exact primaryReads_callEmpty hname hnot ⟨[], rfl⟩ ⟨[], rfl⟩
  | cons a rest =>
    let args : Arguments := ⟨a, rest.map fun b => (⟨⟨[], rfl⟩, ⟨[' '], by decide⟩⟩, b)⟩
    have hoperands : args.operands = a :: rest := by
      simp [args, Chain.operands, Function.comp_def]
    have htext : argumentsText args = listText ((a :: rest).map Argument.text) := by
      simp [args, argumentsText, argumentsRest, listText, List.flatMap_map]
    have hoperand : ∀ i ∈ args.operands, ArgumentReads R i := by
      rwa [hoperands]
    have hcall := primaryReads_callArguments hname hnot hoperand ⟨[], rfl⟩ ⟨[], rfl⟩ ⟨[], rfl⟩
    rw [hoperands, htext] at hcall
    exact hcall

/-! ## The round trip -/

mutual
/-- Every printable expression is read back. -/
theorem printed : ∀ e : Expression, e.printable = true →
    Printed R e ∧ (e.isPlace = true → PlaceText R e)
  | .literal lit, h => by
    rw [Expression.printable] at h
    refine ⟨.of_primary ?_, fun hplace => by cases hplace⟩
    rw [Expression.print, Expression.parenthesised]
    exact primaryReads_printable h
  | .variable name, h => by
    rw [Expression.printable] at h
    have hplace : PlaceText R (.variable name) := by
      refine ⟨name.toList, [], h, fun s hs => absurd hs List.not_mem_nil, ?_, ?_⟩
      · rw [Expression.print]
        exact (List.append_nil _).symm
      · rw [Expression.parenthesised]
        simp [applySuffixes]
    exact ⟨hplace.printed, fun _ => hplace⟩
  | .arrayAccess array index, h => by
    rw [Expression.printable, Bool.and_eq_true, Bool.and_eq_true] at h
    obtain ⟨⟨hplace, harray⟩, hindex⟩ := h
    -- an index is printed as a primary, in parentheses where it is none
    have hsuffix := suffixReads_index ((printed index hindex).1.enclose_primary (by decide : 8 ≤ 9))
    have hwhole : PlaceText R (.arrayAccess array index) :=
      ((printed array harray).2 hplace).suffix hsuffix (by rw [Expression.print])
        (by rw [Expression.parenthesised])
    exact ⟨hwhole.printed, fun _ => hwhole⟩
  | .fieldAccess object field, h => by
    rw [Expression.printable, Bool.and_eq_true, Bool.and_eq_true] at h
    obtain ⟨⟨hplace, hobject⟩, hfield⟩ := h
    have hwhole : PlaceText R (.fieldAccess object field) :=
      ((printed object hobject).2 hplace).suffix (suffixReads_field hfield)
        (by rw [Expression.print]) (by rw [Expression.parenthesised, String.ofList_toList])
    exact ⟨hwhole.printed, fun _ => hwhole⟩
  | .binary left op right, h => by
    rw [Expression.printable, Bool.and_eq_true, Bool.and_eq_true, Bool.not_eq_true'] at h
    obtain ⟨⟨hop, hleft⟩, hright⟩ := h
    exact ⟨(printed left hleft).1.binary (printed right hright).1 hop,
      fun hplace => by cases hplace⟩
  | .unary op operand, h => by
    rw [Expression.printable] at h
    exact ⟨(printed operand h).1.unary op, fun hplace => by cases hplace⟩
  | .call name arguments, h => by
    rw [Expression.printable, Bool.and_eq_true, Bool.and_eq_true, Bool.not_eq_true'] at h
    -- a name that begins with NOT would be read as an operator
    obtain ⟨⟨hname, hnot⟩, harguments⟩ := h
    obtain ⟨as, has, htext, hvalue⟩ := printed_arguments arguments harguments
    refine ⟨.of_primary ?_, fun hplace => by cases hplace⟩
    rw [Expression.print, Expression.parenthesised, ← htext, ← hvalue]
    have hcall := primaryReads_printedCall hname hnot as has
    rwa [String.ofList_toList] at hcall
  | .paren inner, h => by
    rw [Expression.printable] at h
    exact ⟨(printed inner h).1.paren, fun hplace => by cases hplace⟩

/-- So are arguments. -/
theorem printed_arguments : ∀ arguments : List (Option String × Expression),
    printableArguments arguments = true →
      ∃ as : List Argument, (∀ a ∈ as, ArgumentReads R a) ∧
        as.map Argument.text = printArguments arguments ∧
        as.map Argument.value = parenthesisedArguments arguments
  | [], _ => ⟨[], fun a ha => absurd ha List.not_mem_nil, rfl, rfl⟩
  | (name, value) :: rest, h => by
    rw [printableArguments, Bool.and_eq_true, Bool.and_eq_true] at h
    obtain ⟨⟨hname, hvalue⟩, hrest⟩ := h
    obtain ⟨a, ha, htext, hexpr⟩ := (printed value hvalue).1.argument hname
    obtain ⟨as, has, htexts, hexprs⟩ := printed_arguments rest hrest
    refine ⟨a :: as, ?_, ?_, ?_⟩
    · intro a' ha'
      rcases List.mem_cons.1 ha' with rfl | ha'
      · exact ha
      · exact has a' ha'
    · rw [List.map_cons, htext, htexts, printArguments]
    · rw [List.map_cons, hexpr, hexprs, parenthesisedArguments]
end

theorem bare_enclosed (k : Nat) (e e' : Expression) : (enclosed k e e').bare = e'.bare := by
  rw [enclosed]
  split
  · rfl
  · rw [Expression.bare]

mutual
/-- Printed parentheses are parentheses. -/
theorem bare_parenthesised : ∀ e : Expression, e.parenthesised.bare = e.bare
  | .literal _ | .variable _ => by rw [Expression.parenthesised]
  | .arrayAccess array index => by
    rw [Expression.parenthesised, Expression.bare, Expression.bare, bare_parenthesised array,
      bare_enclosed, bare_parenthesised index]
  | .fieldAccess object _ => by
    rw [Expression.parenthesised, Expression.bare, Expression.bare, bare_parenthesised object]
  | .binary left _ right => by
    rw [Expression.parenthesised, Expression.bare, Expression.bare, bare_enclosed, bare_enclosed,
      bare_parenthesised left, bare_parenthesised right]
  | .unary _ operand => by
    rw [Expression.parenthesised, Expression.bare, Expression.bare, bare_enclosed,
      bare_parenthesised operand]
  | .call _ arguments => by
    rw [Expression.parenthesised, Expression.bare, Expression.bare, bare_arguments arguments]
  | .paren inner => by
    rw [Expression.parenthesised, Expression.bare, Expression.bare, bare_parenthesised inner]

theorem bare_arguments : ∀ arguments : List (Option String × Expression),
    bareArguments (parenthesisedArguments arguments) = bareArguments arguments
  | [] => rfl
  | (name, value) :: rest => by
    rw [parenthesisedArguments, bareArguments, bareArguments, bare_parenthesised value,
      bare_arguments rest]
end

theorem strength_parenthesised (e : Expression) : e.parenthesised.strength = e.strength := by
  cases e with
  | literal _ | «variable» _ => rw [Expression.parenthesised]
  | arrayAccess _ _ | fieldAccess _ _ | binary _ _ _ | unary _ _ | call _ _ | paren _ =>
    rw [Expression.parenthesised]
    rfl

/-- Parentheses that are there are not printed again. -/
theorem enclose_enclosed {k : Nat} (hk : k ≤ 9) {e : Expression}
    (h : e.parenthesised.print = e.print) :
    enclose k (enclosed k e e.parenthesised) (enclosed k e e.parenthesised).print =
      enclose k e e.print := by
  rw [enclosed, enclose, enclose]
  by_cases hstrength : k ≤ e.strength
  · rw [if_pos hstrength, if_pos hstrength, strength_parenthesised, if_pos hstrength, h]
  · rw [if_neg hstrength, if_neg hstrength,
      if_pos (show k ≤ Expression.strength (.paren _) from hk), Expression.print, h]

mutual
/-- The expression with its printed parentheses has the same text. -/
theorem print_parenthesised : ∀ e : Expression, e.printable = true →
    e.parenthesised.print = e.print
  | .literal _, _ | .variable _, _ => by rw [Expression.parenthesised]
  | .arrayAccess array index, h => by
    rw [Expression.printable, Bool.and_eq_true, Bool.and_eq_true] at h
    rw [Expression.parenthesised, Expression.print, Expression.print,
      print_parenthesised array h.1.2,
      enclose_enclosed (Nat.le_refl 9) (print_parenthesised index h.2)]
  | .fieldAccess object _, h => by
    rw [Expression.printable, Bool.and_eq_true, Bool.and_eq_true] at h
    rw [Expression.parenthesised, Expression.print, Expression.print,
      print_parenthesised object h.1.2]
  | .binary left op right, h => by
    rw [Expression.printable, Bool.and_eq_true, Bool.and_eq_true, Bool.not_eq_true'] at h
    obtain ⟨⟨hop, hleft⟩, hright⟩ := h
    have hlevel : op.level < 7 := (spacedOp op hop).level_lt
    rw [Expression.parenthesised, Expression.print, Expression.print,
      enclose_enclosed (by omega) (print_parenthesised left hleft),
      enclose_enclosed (by omega) (print_parenthesised right hright)]
  | .unary _ operand, h => by
    rw [Expression.printable] at h
    rw [Expression.parenthesised, Expression.print, Expression.print,
      enclose_enclosed (by decide) (print_parenthesised operand h)]
  | .call _ arguments, h => by
    rw [Expression.printable, Bool.and_eq_true] at h
    rw [Expression.parenthesised, Expression.print, Expression.print,
      print_arguments arguments h.2]
  | .paren inner, h => by
    rw [Expression.printable] at h
    rw [Expression.parenthesised, Expression.print, Expression.print, print_parenthesised inner h]

theorem print_arguments : ∀ arguments : List (Option String × Expression),
    printableArguments arguments = true →
      printArguments (parenthesisedArguments arguments) = printArguments arguments
  | [], _ => rfl
  | (name, value) :: rest, h => by
    rw [printableArguments, Bool.and_eq_true, Bool.and_eq_true] at h
    rw [parenthesisedArguments, printArguments, printArguments, print_parenthesised value h.1.2,
      print_arguments rest h.2]
end

section Typing

variable {b : Build} {tc : TypeChecker}

theorem checkExpr_enclosed (k : Nat) (e e' : Expression) :
    tc.checkExpr b (enclosed k e e') = tc.checkExpr b e' := by
  rw [enclosed]
  split
  · rfl
  · rw [TypeChecker.checkExpr]

mutual
/-- Parentheses have no part in the type of an expression. -/
theorem checkExpr_parenthesised : ∀ e : Expression,
    tc.checkExpr b e.parenthesised = tc.checkExpr b e
  | .literal _ | .variable _ => by rw [Expression.parenthesised]
  | .arrayAccess array index => by
    rw [Expression.parenthesised, TypeChecker.checkExpr, TypeChecker.checkExpr,
      checkExpr_parenthesised array, checkExpr_enclosed, checkExpr_parenthesised index]
  | .fieldAccess object _ => by
    rw [Expression.parenthesised, TypeChecker.checkExpr, TypeChecker.checkExpr,
      checkExpr_parenthesised object]
  | .binary left _ right => by
    rw [Expression.parenthesised, TypeChecker.checkExpr, TypeChecker.checkExpr, checkExpr_enclosed,
      checkExpr_enclosed, checkExpr_parenthesised left, checkExpr_parenthesised right]
  | .unary _ operand => by
    rw [Expression.parenthesised, TypeChecker.checkExpr, TypeChecker.checkExpr, checkExpr_enclosed,
      checkExpr_parenthesised operand]
  | .call _ arguments => by
    rw [Expression.parenthesised, TypeChecker.checkExpr, TypeChecker.checkExpr,
      checkArguments_parenthesised arguments]
  | .paren inner => by
    rw [Expression.parenthesised, TypeChecker.checkExpr, TypeChecker.checkExpr,
      checkExpr_parenthesised inner]

theorem checkArguments_parenthesised : ∀ arguments : List (Option String × Expression),
    tc.checkArguments b (parenthesisedArguments arguments) = tc.checkArguments b arguments
  | [] => rfl
  | (name, value) :: rest => by
    rw [parenthesisedArguments, TypeChecker.checkArguments, TypeChecker.checkArguments,
      checkExpr_parenthesised value, checkArguments_parenthesised rest]
end

end Typing

/-- The text of a printable expression is accepted whole. What is read from it is the expression up
to parentheses; it has the same text and, whatever is declared, the same typed expression. -/
theorem print_reads (R : LiteralReaders) (e : Expression) (h : e.printable = true) :
    ∃ p e', parse grammar (.call .expression) e.print = some (.ok [p] []) ∧
      parseExpression R p = .ok e' ∧ e'.bare = e.bare ∧ e'.print = e.print ∧
      ∀ (b : Build) (tc : TypeChecker), tc.checkExpr b e' = tc.checkExpr b e := by
  obtain ⟨t, ht⟩ := (printed e h).1.stands (R := R)
  have hoperands : ∀ i ∈ t.chain.operands, OperandReads R i := by
    rw [OpTree.chain_operands]
    exact ht.leaves
  obtain ⟨p, w, hread, hw, hparse, -⟩ := chain_reads hoperands closed_nil
  have hwhole : w = [] := by
    rcases hw with rfl | rfl <;> rfl
  rw [List.append_nil, hwhole, ← treeText_eq, ht.text_eq] at hread
  rw [chainExpr, ← ht.grouped.eq_group, ht.expr_eq] at hparse
  exact ⟨p, e.parenthesised, hread, hparse, bare_parenthesised e, print_parenthesised e h,
    fun b tc => checkExpr_parenthesised e⟩

/-- The product of a sum and an element, negated. -/
def negatedProduct : Expression :=
  .unary .neg (.binary (.binary (.variable "a") .add (.literal (.integer 2))) .mul
    (.arrayAccess (.variable "b") (.variable "i")))

example : negatedProduct.print = "-((a + 2) * b [(i)])".toList := by decide

theorem print_reads_product : ∃ p e',
    parse grammar (.call .expression) negatedProduct.print = some (.ok [p] []) ∧
      parseExpression noReaders p = .ok e' ∧ e'.bare = negatedProduct.bare ∧
      e'.print = negatedProduct.print ∧
      ∀ (b : Build) (tc : TypeChecker), tc.checkExpr b e' = tc.checkExpr b negatedProduct :=
  print_reads noReaders negatedProduct (by decide)

end VirtualPlc.Compiler

import Mathlib.Tactic.IntervalCases
import VirtualPlc.Compiler.Chains

/-!
# The grammar reads operator chains

Every operand of a chain is read by the rule for unary expressions, and each level of the
expression grammar reads the longest part of the chain whose operators are at least as strong as
its own. The functions over the parse tree fold what a level has read to the left, so the tree that
comes out is the grouped one.
-/

set_option autoImplicit false

namespace VirtualPlc.Compiler

open VirtualPlc.Parsing

variable {R : LiteralReaders}

/-! ## What may follow -/

/-- What may follow an operand: it ends a name and a number, and after its blanks there is nothing
that continues a variable or makes a name the name of an argument or of a function. -/
structure Follows (rest : List Char) : Prop where
  ends : TokenEnds rest
  stops : Stops (fun c => c == '(' || c == '[' || c == '.' || c == ':') (trim rest)
  noComment : noComment (trim rest) = true

/-- What follows a whole chain: the end, a closing parenthesis or a comma, maybe after blanks. -/
def Closed (rest : List Char) : Prop :=
  Stops (fun c => !(c == ')' || c == ',')) (trim rest)

theorem closed_nil : Closed [] := stops_nil _

theorem closed_append {g : List Char} (hg : g.all isBlank = true) {c : Char}
    (hc : (c == ')' || c == ',') = true) (s : List Char) : Closed (g ++ c :: s) := by
  have hblank : isBlank c = false := by
    simp only [Bool.or_eq_true, beq_iff_eq] at hc
    rcases hc with rfl | rfl <;> decide
  rw [Closed, trim_append_of_blank hg, trim_of_stops (by simpa using hblank), stops_cons, hc]
  rfl

/-- A text either starts with a blank or is its own trimmed text. -/
theorem blank_or_trim (s : List Char) :
    (∃ c t, s = c :: t ∧ isBlank c = true) ∨ trim s = s := by
  cases s with
  | nil => exact .inr rfl
  | cons c t =>
    cases hc : isBlank c with
    | true => exact .inl ⟨c, t, rfl, hc⟩
    | false => exact .inr (trim_of_stops (by simpa using hc))

theorem tokenEnds_of_blank {c : Char} (h : isBlank c = true) (s : List Char) :
    TokenEnds (c :: s) := by
  simp only [isBlank, Bool.or_eq_true, beq_iff_eq] at h
  rw [TokenEnds, stops_cons]
  rcases h with ((rfl | rfl) | rfl) | rfl <;> decide

theorem Closed.follows {rest : List Char} (h : Closed rest) : Follows rest := by
  have hhead : ∀ c ∈ (trim rest).head?, c = ')' ∨ c = ',' := by
    intro c hc
    have hclose : (!(c == ')' || c == ',')) = false := h c hc
    simpa only [Bool.not_eq_false', Bool.or_eq_true, beq_iff_eq] using hclose
  refine ⟨?_, ?_, ?_⟩
  · rcases blank_or_trim rest with ⟨c, t, rfl, hc⟩ | htrim
    · exact tokenEnds_of_blank hc t
    · intro c hc
      rw [← htrim] at hc
      rcases hhead c hc with rfl | rfl <;> decide
  · intro c hc
    rcases hhead c hc with rfl | rfl <;> decide
  · cases htrim : trim rest with
    | nil => rfl
    | cons c t =>
      rw [htrim] at hhead
      rcases hhead c rfl with rfl | rfl <;> rfl

/-! ## Operands without a unary operator -/

/-- An operand without a unary operator is read as one primary expression, up to blanks after it,
and as nothing else that the grammar tries before. -/
structure PrimaryReads (R : LiteralReaders) (text : List Char) (value : Expression) : Prop where
  head : ∃ c t, text = c :: t ∧ (isNameChar c || c == '(') = true
  noComment : ∀ rest, noComment (text ++ rest) = true
  unsigned : ∀ rest, Follows rest → Fails grammar (.call .unaryOp) (text ++ rest)
  unnamed : ∀ rest, Follows rest →
    Fails grammar (parts [.call .identifier, str ":="]) (text ++ rest)
  reads : ∀ rest, Follows rest → ∃ p w, Reads grammar (.call .primaryExpr) (text ++ rest) [p] w ∧
    (w = rest ∨ w = trim rest) ∧ p.rule = .primaryExpr ∧
    parsePrimaryExprInner R p = .ok value

theorem noComment_of_ne {c : Char} (hslash : c ≠ '/') (hparen : c ≠ '(') (s : List Char) :
    noComment (c :: s) = true := by
  rw [noComment.eq_def]
  split <;> simp_all

theorem isNameChar_ne {c d : Char} (h : isNameChar c = true) (hd : isNameChar d = false) :
    c ≠ d := by
  rintro rfl
  rw [h] at hd
  exact absurd hd (by decide)

theorem noComment_of_nameChar {c : Char} (h : isNameChar c = true) (s : List Char) :
    noComment (c :: s) = true :=
  noComment_of_ne (isNameChar_ne h (by decide)) (isNameChar_ne h (by decide)) s

/-- A string whose first character does not come first fails. -/
theorem str_fails_of_head {s : String} {d : Char} (hs : s.toList.head? = some d) {t : List Char}
    (h : Stops (fun c => c == d) t) : Fails grammar (str s) t := by
  obtain ⟨ds, hds⟩ := List.head?_eq_some_iff.1 hs
  apply str_fails
  cases t with
  | nil => simp [hds, afterPrefix]
  | cons c t =>
    have hne : c ≠ d := by simpa using h
    simp [hds, afterPrefix, Ne.symm hne]

/-- A name followed by something that is no `:=` names no argument. -/
theorem unnamed_of_name {name rest : List Char} (hname : isIdentifier name = true)
    (hends : Stops isNameChar rest) (hstop : Stops (fun c => c == ':') (trim rest))
    (hcomment : noComment (trim rest) = true) :
    Fails grammar (parts [.call .identifier, str ":="]) (name ++ rest) :=
  Fails.seq_right (identifier_reads hname hends)
    (Fails.seq_right (skip_reads hcomment) (str_fails_of_head (d := ':') (by simp) hstop))

/-- A name followed by something that is no parenthesis is no call. -/
theorem functionCall_fails {name rest : List Char} (hname : isIdentifier name = true)
    (hends : Stops isNameChar rest) (hstop : Stops (fun c => c == '(') (trim rest))
    (hcomment : noComment (trim rest) = true) :
    Fails grammar (.call .functionCall) (name ++ rest) :=
  Fails.call (Fails.seq_right (identifier_reads hname hends)
    (Fails.seq_right (skip_reads hcomment)
      (Fails.seq_left _ (str_fails_of_head (d := '(') (by simp) hstop))))

/-- A name that is neither indexed nor followed by a field is a variable. -/
theorem variable_reads {name rest : List Char} (hname : isIdentifier name = true)
    (hends : Stops isNameChar rest) (hstop : Stops (fun c => c == '[' || c == '.') (trim rest))
    (hcomment : noComment (trim rest) = true) :
    ∃ t, Reads grammar (.call .variable) (name ++ rest)
      [.node .variable t [.node .identifier name []]] (trim rest) := by
  have hindex : Fails grammar (.call .arrayIndex) (trim rest) :=
    Fails.call (Fails.seq_left _ (str_fails_of_head (d := '[') (by simp)
      (hstop.mono fun c hc => by simp [hc])))
  have hfield : Fails grammar (.call .fieldAccess) (trim rest) :=
    Fails.call (Fails.seq_left _ (str_fails_of_head (d := '.') (by simp)
      (hstop.mono fun c hc => by simp [hc])))
  have hbody : Reads grammar (ruleBody .variable) (name ++ rest) [.node .identifier name []]
      (trim rest) :=
    Reads.seq (identifier_reads hname hends) (Reads.seq (skip_reads hcomment)
      (Reads.opt_none (Fails.seq_left _ (Fails.choice hindex hfield))))
  exact ⟨_, Reads.call (r := Rule.variable) hbody⟩

/-- Where the parenthesis does not come first, no parenthesised expression is read. -/
theorem paren_fails {s : List Char} (h : Stops (fun c => c == '(') s) :
    Fails grammar (parts [str "(", .call .expression, str ")"]) s :=
  Fails.seq_left _ (str_fails_of_head (d := '(') (by simp) h)

theorem identifier_head {name : List Char} (h : isIdentifier name = true) :
    ∃ c t, name = c :: t ∧ isNameStart c = true := by
  cases name with
  | nil => simp [isIdentifier] at h
  | cons c t => exact ⟨c, t, rfl, (by simpa [isIdentifier] using h : _ ∧ _).1⟩

theorem unaryOp_fails_of_name {name rest : List Char} (hname : isIdentifier name = true)
    (hnot : beginsWith "NOT" name = false) (hends : Stops isNameChar rest) :
    Fails grammar (.call .unaryOp) (name ++ rest) := by
  obtain ⟨c, t, rfl, hc⟩ := identifier_head hname
  refine Fails.call (Fails.choice (str_fails_of_head (d := '-') (by simp) ?_) (word_fails ?_))
  · have hne := isNameChar_ne (isNameChar_of_isNameStart hc) (d := '-') (by decide)
    simpa using hne
  · rw [beginsWith_append (by decide) hends, hnot]

theorem primaryReads_variable {name : List Char} (hname : isIdentifier name = true)
    (hnot : beginsWith "NOT" name = false) (htrue : beginsWith "TRUE" name = false)
    (hfalse : beginsWith "FALSE" name = false) :
    PrimaryReads R name (.variable (String.ofList name)) := by
  obtain ⟨c, t, hname', hc⟩ := identifier_head hname
  have hchar := isNameChar_of_isNameStart hc
  refine ⟨⟨c, t, hname', by simp [hchar]⟩, fun rest => ?_, fun rest hrest => ?_,
    fun rest hrest => ?_, fun rest hrest => ?_⟩
  · rw [hname']
    exact noComment_of_nameChar hchar _
  · exact unaryOp_fails_of_name hname hnot hrest.ends.name
  · exact unnamed_of_name hname hrest.ends.name (hrest.stops.mono fun c hc => by simp [hc])
      hrest.noComment
  · obtain ⟨text, hvar⟩ := variable_reads hname hrest.ends.name
      (hrest.stops.mono fun c hc => by simp only [Bool.or_eq_true] at hc ⊢; tauto) hrest.noComment
    have hparen : Stops (fun c => c == '(') (name ++ rest) := by
      rw [hname']
      have hne := isNameChar_ne hchar (d := '(') (by decide)
      simpa using hne
    have hbody : Reads grammar (ruleBody .primaryExpr) (name ++ rest)
        [.node .variable text [.node .identifier name []]] (trim rest) :=
      Reads.choice_right (paren_fails hparen) (Reads.choice_right
        (functionCall_fails hname hrest.ends.name (hrest.stops.mono fun c hc => by simp [hc])
          hrest.noComment)
        (Reads.choice_right (literal_fails hname htrue hfalse hrest.ends) hvar))
    exact ⟨_, _, Reads.call (r := Rule.primaryExpr) hbody, .inr rfl, rfl, rfl⟩

/-- An integer literal is read as one primary expression, whether it has a value or not. -/
theorem primary_reads_integer {text : List Char} (h : IntegerText text) {rest : List Char}
    (hends : NumberEnds rest) :
    ∃ p, Reads grammar (.call .primaryExpr) (text ++ rest) [p] rest ∧ p.rule = .primaryExpr ∧
      ∀ R, parsePrimaryExprInner R p =
        (integerValue text).map fun v => .literal (.integer v) := by
  obtain ⟨d, ds, htext, hd⟩ := h.shape.1
  have hparen : Stops (fun c => c == '(') (text ++ rest) := by
    have hne := isNameChar_ne (isNameChar_of_isDigit hd) (d := '(') (by decide)
    rw [htext]
    simpa using hne
  have hcall : Fails grammar (.call .functionCall) (text ++ rest) := by
    rw [htext]
    refine Fails.call (Fails.seq_left _ (identifier_fails ((stops_cons _ _ _).2 ?_)))
    by_contra hstart
    rw [not_isDigit (by simpa using hstart)] at hd
    exact absurd hd (by decide)
  have hbody : Reads grammar (ruleBody .primaryExpr) (text ++ rest)
      [.node .literal text [.node .integerLiteral text []]] rest :=
    Reads.choice_right (paren_fails hparen) (Reads.choice_right hcall
      (Reads.choice_left _ (literal_reads_integer h hends)))
  refine ⟨_, Reads.call (r := Rule.primaryExpr) hbody, rfl, fun R => ?_⟩
  show parsePrimaryExprInner R
    (.node _ _ [.node .literal text [.node .integerLiteral text []]]) = _
  rw [parsePrimaryExprInner]
  simp only [Pair.rule_node, parseLiteral, Pair.inner_node, Pair.text_node]
  cases integerValue text <;> rfl

theorem unaryOp_fails_of_integer {text : List Char} (h : IntegerText text) (rest : List Char) :
    Fails grammar (.call .unaryOp) (text ++ rest) := by
  obtain ⟨d, ds, htext, hd⟩ := h.shape.1
  rw [htext]
  refine Fails.call (Fails.choice (str_fails_of_head (d := '-') (by simp) ?_) (word_fails ?_))
  · have hne := isNameChar_ne (isNameChar_of_isDigit hd) (d := '-') (by decide)
    simpa using hne
  · exact beginsWith_of_digit (d := 'N') (by simp) (by decide) hd _

theorem primaryReads_literal {text : List Char} {v : Int} (h : IntegerText text)
    (hv : integerValue text = .ok v) : PrimaryReads R text (.literal (.integer v)) := by
  obtain ⟨d, ds, htext, hd⟩ := h.shape.1
  have hchar := isNameChar_of_isDigit hd
  have hstart : isNameStart d = false := by
    by_contra hs
    rw [not_isDigit (by simpa using hs)] at hd
    exact absurd hd (by decide)
  refine ⟨⟨d, ds, htext, by simp [hchar]⟩, fun rest => ?_, fun rest _ => ?_, fun rest _ => ?_,
    fun rest hrest => ?_⟩
  · rw [htext]
    exact noComment_of_nameChar hchar _
  · exact unaryOp_fails_of_integer h rest
  · rw [htext]
    exact Fails.seq_left _ (identifier_fails (by simpa using hstart))
  · obtain ⟨p, hread, hrule, hparse⟩ := primary_reads_integer h hrest.ends.number
    refine ⟨p, rest, hread, .inl rfl, hrule, ?_⟩
    rw [hparse, hv]
    rfl

/-! ## Levels and their operators -/

/-- The rule of each level. -/
def levelRule : Nat → Rule
  | 0 => .orExpr
  | 1 => .xorExpr
  | 2 => .andExpr
  | 3 => .comparison
  | 4 => .addExpr
  | 5 => .mulExpr
  | 6 => .powerExpr
  | _ => .unaryExpr

/-- The rule of a level's operators; a power has none. -/
def levelOpRule : Nat → Option Rule
  | 0 => some .orOp
  | 1 => some .xorOp
  | 2 => some .andOp
  | 3 => some .comparisonOp
  | 4 => some .addOp
  | 5 => some .mulOp
  | _ => none

def levelOp (k : Nat) : Peg Rule :=
  match levelOpRule k with
  | some r => .call r
  | none => str "**"

/-- The node that an operator leaves. -/
def opNodes (k : Nat) (word : List Char) : List Node :=
  (levelOpRule k).toList.map fun r => .node r word []

/-- The function of each level. -/
def parseAt (R : LiteralReaders) : Nat → Node → Parsed Expression
  | 0 => parseOrExpr R
  | 1 => parseXorExpr R
  | 2 => parseAndExpr R
  | 3 => parseComparison R
  | 4 => parseAddExpr R
  | 5 => parseMulExpr R
  | 6 => parsePowerExpr R
  | _ => parseUnaryExpr R

/-- The loop of each level. -/
def loopAt (R : LiteralReaders) : Nat → Expression → List Node → Parsed Expression
  | 0 => parseOrRest R
  | 1 => parseLevelRest R .xor
  | 2 => parseLevelRest R .and
  | 3 => parseLevelRest R .comparison
  | 4 => parseLevelRest R .add
  | 5 => parseLevelRest R .mul
  | _ => parsePowerRest R

theorem levelRule_body {k : Nat} (hk : k < 7) :
    ruleBody (levelRule k) = joined (levelOp k) (.call (levelRule (k + 1))) := by
  interval_cases k <;> rfl

theorem levelRule_shape (k : Nat) : ruleShape (levelRule k) = .visible := by
  rw [levelRule.eq_def]
  split <;> rfl

theorem parseAt_node {k : Nat} (hk : k < 7) (r : Rule) (t : List Char) (p : Node)
    (ps : List Node) :
    parseAt R k (.node r t (p :: ps)) = (parseAt R (k + 1) p).bind fun left =>
      loopAt R k left ps := by
  interval_cases k <;> rfl

theorem loopAt_nil {k : Nat} (hk : k < 7) (left : Expression) : loopAt R k left [] = .ok left := by
  interval_cases k <;> simp [loopAt, parseOrRest, parseLevelRest, parsePowerRest]

/-- One step of a level between `OR` and `**`. -/
theorem parseLevelRest_step (l : OperatorLevel) {w : List Char} {op : BinaryOp} {p : Node}
    {e : Expression} (hop : l.operator (.node l.opRule w []) = .ok op)
    (h : (match l.operand with
      | some tighter => parseLevel R tighter p
      | none => parsePowerExpr R p) = .ok e) (left : Expression) (ps : List Node) :
    parseLevelRest R l left (.node l.opRule w [] :: p :: ps) =
      parseLevelRest R l (.binary left op e) ps := by
  rw [parseLevelRest, if_pos (Pair.rule_node _ _ _), hop]
  cases hoperand : l.operand with
  | none =>
    have hright : parsePowerExpr R p = .ok e := by simpa [hoperand] using h
    simp only [hright]
    rfl
  | some tighter =>
    have hright : parseLevel R tighter p = .ok e := by simpa [hoperand] using h
    simp only [hright]
    rfl

/-- Each level takes its own operator with the operand after it. -/
theorem loopAt_step (o : OpText) {p : Node} {e : Expression}
    (h : parseAt R (o.level + 1) p = .ok e) (left : Expression) (ps : List Node) :
    loopAt R o.level left (opNodes o.level o.word ++ p :: ps) =
      loopAt R o.level (.binary left o.op e) ps := by
  obtain ⟨op, before, w, after, hspell⟩ := o
  cases op with
  | or =>
    have hright : parseLevel R .xor p = .ok e := h
    show parseOrRest R left (.node .orOp w [] :: p :: ps) = _
    rw [parseOrRest, if_pos (Pair.rule_node _ _ _), hright]
    rfl
  | pow =>
    have hright : parseUnaryExpr R p = .ok e := h
    show parsePowerRest R left (p :: ps) = _
    rw [parsePowerRest, hright]
    rfl
  | xor => exact parseLevelRest_step .xor rfl h left ps
  | and => exact parseLevelRest_step .and rfl h left ps
  | mod =>
    have hupper : w.map Char.toUpper = "MOD".toList := map_toUpper_of_sameWord hspell
    refine parseLevelRest_step .mul ?_ h left ps
    simp [OperatorLevel.operator, mulOperator, hupper]
  | eq | ne | lt | le | gt | ge =>
    obtain rfl : w = _ := hspell
    exact parseLevelRest_step .comparison rfl h left ps
  | add | sub =>
    obtain rfl : w = _ := hspell
    exact parseLevelRest_step .add rfl h left ps
  | mul | div =>
    obtain rfl : w = _ := hspell
    exact parseLevelRest_step .mul rfl h left ps
  | bitAnd | bitOr | bitXor | shl | shr => exact absurd hspell not_false

/-! ## Which operator comes next -/

/-- The characters that the operators of a level start with, in lower case. -/
def heads : Nat → List Char
  | 0 => ['o']
  | 1 => ['x']
  | 2 => ['a', '&']
  | 3 => ['<', '>', '=']
  | 4 => ['+', '-']
  | 5 => ['*', '/', 'm']
  | _ => ['*']

/-- What all first characters have. -/
theorem heads_satisfy (p : Char → Bool)
    (h : ((List.range 7).all fun k => (heads k).all p) = true) {k : Nat} (hk : k < 7) {d : Char}
    (hd : d ∈ heads k) : p d = true :=
  List.all_eq_true.1 (List.all_eq_true.1 h k (List.mem_range.2 hk)) d hd

/-- Of two levels only the products and the powers start alike. -/
theorem heads_apart {j k : Nat} (hj : j < 7) (hk : k < 7) (hlt : j < k) {d : Char}
    (hdj : d ∈ heads j) (hdk : d ∈ heads k) : j = 5 ∧ d = '*' := by
  have hall : ((List.range 7).all fun j => (List.range 7).all fun k =>
      (heads j).all fun d =>
        !(Nat.blt j k) || !(heads k).contains d || (j == 5 && d == '*')) = true := by
    decide
  have hone := List.all_eq_true.1 (List.all_eq_true.1 (List.all_eq_true.1 hall j
    (List.mem_range.2 hj)) k (List.mem_range.2 hk)) d hdj
  have hblt : Nat.blt j k = true := by rwa [Nat.blt_eq]
  simpa [hblt, hdk] using hone

/-- A level's operator does not come where none of its first characters does. -/
theorem levelOp_fails {k : Nat} (hk : k < 7) {s : List Char}
    (h : Stops (fun c => (heads k).contains c.toLower) s) : Fails grammar (levelOp k) s := by
  have hstr : ∀ {t : String} {d : Char}, t.toList.head? = some d →
      (heads k).contains d.toLower = true → Fails grammar (str t) s := by
    intro t d ht hd
    refine str_fails_of_head ht (h.mono fun c hc => ?_)
    rw [eq_of_beq hc]
    exact hd
  have hword : ∀ {w : String} {d : Char}, w.toList.head? = some d →
      (heads k).contains d.toLower = true → Fails grammar (word w) s := by
    intro w d hw hd
    apply word_fails
    cases s with
    | nil =>
      obtain ⟨ds, hds⟩ := List.head?_eq_some_iff.1 hw
      simp [beginsWith, hds, afterPrefix]
    | cons c s =>
      refine beginsWith_of_head hw (fun hsame => ?_) s
      have hstop : (heads k).contains c.toLower = false := by simpa only [stops_cons] using h
      rw [← hsame, hd] at hstop
      exact absurd hstop (by decide)
  interval_cases k
  · exact Fails.call (hword (d := 'O') (by simp) (by decide))
  · exact Fails.call (hword (d := 'X') (by simp) (by decide))
  · exact Fails.call (Fails.choice (hword (d := 'A') (by simp) (by decide))
      (hstr (d := '&') (by simp) (by decide)))
  · exact Fails.call (Fails.choice (hstr (d := '<') (by simp) (by decide))
      (Fails.choice (hstr (d := '<') (by simp) (by decide))
        (Fails.choice (hstr (d := '>') (by simp) (by decide))
          (Fails.choice (hstr (d := '<') (by simp) (by decide))
            (Fails.choice (hstr (d := '>') (by simp) (by decide))
              (hstr (d := '=') (by simp) (by decide)))))))
  · exact Fails.call (Fails.choice (hstr (d := '+') (by simp) (by decide))
      (hstr (d := '-') (by simp) (by decide)))
  · exact Fails.call (Fails.choice (hstr (d := '*') (by simp) (by decide))
      (Fails.choice (hstr (d := '/') (by simp) (by decide))
        (hword (d := 'M') (by simp) (by decide))))
  · exact hstr (d := '*') (by simp) (by decide)

/-- A word spelled like a keyword starts with its first letter. -/
theorem sameWord_head {w : String} {d : Char} (hw : w.toList.head? = some d) {text : List Char}
    (h : sameWord w text = true) : ∃ c t, text = c :: t ∧ c.toLower = d.toLower := by
  obtain ⟨ds, hds⟩ := List.head?_eq_some_iff.1 hw
  have hsame : text.map Char.toLower = w.toList.map Char.toLower := by simpa [sameWord] using h
  rw [hds] at hsame
  cases text with
  | nil => simp at hsame
  | cons c t => exact ⟨c, t, rfl, by simpa using (List.cons.inj hsame).1⟩

/-- The first character of an operator belongs to its level. -/
theorem spells_head {op : BinaryOp} {w : List Char} (hspell : Spells op w) :
    ∃ c t, w = c :: t ∧ (heads op.level).contains c.toLower = true := by
  have hword : ∀ {s : String} {d : Char}, s.toList.head? = some d → sameWord s w = true →
      ∃ c t, w = c :: t ∧ c.toLower = d.toLower := fun hs hw => sameWord_head hs hw
  cases op with
  | or =>
    obtain ⟨c, t, hw, hc⟩ := hword (d := 'O') (by simp) hspell
    exact ⟨c, t, hw, by rw [hc]; decide⟩
  | xor =>
    obtain ⟨c, t, hw, hc⟩ := hword (d := 'X') (by simp) hspell
    exact ⟨c, t, hw, by rw [hc]; decide⟩
  | and =>
    rcases hspell with hspell | rfl
    · obtain ⟨c, t, hw, hc⟩ := hword (d := 'A') (by simp) hspell
      exact ⟨c, t, hw, by rw [hc]; decide⟩
    · exact ⟨'&', [], rfl, by decide⟩
  | mod =>
    obtain ⟨c, t, hw, hc⟩ := hword (d := 'M') (by simp) hspell
    exact ⟨c, t, hw, by rw [hc]; decide⟩
  | eq | ne | lt | le | gt | ge | add | sub | mul | div | pow =>
    obtain rfl : w = _ := hspell
    exact ⟨_, _, rfl, by decide⟩
  | bitAnd | bitOr | bitXor | shl | shr => exact absurd hspell not_false

theorem Spaces.head (g : Spaces) : ∃ c t, g.1 = c :: t ∧ isBlank c = true := by
  obtain ⟨g, hblank, hne⟩ := g
  cases g with
  | nil => exact absurd rfl hne
  | cons c t => exact ⟨c, t, rfl, (by simpa using hblank : _ ∧ _).1⟩

theorem blank_ne {c d : Char} (h : isBlank c = true) (hd : isBlank d = false) : c ≠ d := by
  rintro rfl
  rw [h] at hd
  exact absurd hd (by decide)

/-- The node of a rule whose body reads the text of one terminal. -/
theorem visible_reads {r : Rule} (hr : ruleShape r = .visible) {text s : List Char}
    (h : Reads grammar (ruleBody r) (text ++ s) [] s) :
    Reads grammar (.call r) (text ++ s) [.node r text []] s := by
  simpa [grammar, hr, Shape.wrap] using Reads.call (r := r) h

/-- The operators of a level are read whole where a blank follows them. -/
theorem op_reads {op : BinaryOp} {w : List Char} (hspell : Spells op w) {b : Char}
    (hb : isBlank b = true) (s : List Char) :
    Reads grammar (levelOp op.level) (w ++ b :: s) (opNodes op.level w) (b :: s) := by
  have hgt := blank_ne hb (d := '>') (by decide)
  have heq := blank_ne hb (d := '=') (by decide)
  cases op with
  | or => exact visible_reads rfl (word_reads hspell _)
  | xor => exact visible_reads rfl (word_reads hspell _)
  | and =>
    refine visible_reads rfl ?_
    rcases hspell with hspell | rfl
    · exact Reads.choice_left _ (word_reads hspell _)
    · refine Reads.choice_right (word_fails ?_) (str_reads_append (by simp) _)
      exact beginsWith_of_head (d := 'A') (by simp) (by decide) _
  | mod =>
    refine visible_reads rfl ?_
    obtain ⟨c, t, hw, hc⟩ := sameWord_head (d := 'M') (by simp) hspell
    have hother : ∀ {t : String} {d : Char}, t.toList.head? = some d → d.toLower ≠ 'm' →
        Fails grammar (str t) (w ++ b :: s) := by
      intro t d ht hd
      refine str_fails_of_head ht ?_
      rw [hw, List.cons_append, stops_cons, beq_eq_false_iff_ne]
      rintro rfl
      exact hd hc
    exact Reads.choice_right (hother (d := '*') (by simp) (by decide))
      (Reads.choice_right (hother (d := '/') (by simp) (by decide)) (word_reads hspell _))
  | eq | ne | lt | le | gt | ge =>
    -- the longer operators are tried first and a blank is no part of them
    obtain rfl : w = _ := hspell
    refine visible_reads rfl ?_
    simp [Reads, ruleBody, firstOf, str, parse_choice, parse_terminal, Terminal.outcome,
      Terminal.strip, afterPrefix, hgt.symm, heq.symm]
  | add | sub =>
    obtain rfl : w = _ := hspell
    refine visible_reads rfl ?_
    simp [Reads, ruleBody, firstOf, str, parse_choice, parse_terminal, Terminal.outcome,
      Terminal.strip, afterPrefix]
  | mul | div =>
    obtain rfl : w = _ := hspell
    refine visible_reads rfl ?_
    simp [Reads, ruleBody, firstOf, str, parse_choice, parse_terminal, Terminal.outcome,
      Terminal.strip, afterPrefix]
  | pow =>
    obtain rfl : w = _ := hspell
    exact str_reads_append (by simp) _
  | bitAnd | bitOr | bitXor | shl | shr => exact absurd hspell not_false

/-- No level takes an operator that is weaker than its own. -/
theorem op_fails {op : BinaryOp} {w : List Char} (hspell : Spells op w) {k : Nat} (hk : k < 7)
    (hlevel : op.level < k) {b : Char} (hb : isBlank b = true) (s : List Char) :
    Fails grammar (levelOp k) (w ++ b :: s) := by
  obtain ⟨c, t, hw, hc⟩ := spells_head hspell
  by_cases hmem : c.toLower ∈ heads k
  · -- only a product and a power start alike, and a blank is no part of a power
    obtain ⟨hfive, hstar⟩ := heads_apart (by omega) hk hlevel (by simpa using hc) hmem
    have hsix : k = 6 := by omega
    subst hsix
    have hmul : w = ['*'] := by
      cases op with
      | mul => exact hspell
      | div =>
        obtain rfl : w = _ := hspell
        obtain ⟨rfl, -⟩ := List.cons.inj hw
        exact absurd hstar (by decide)
      | mod =>
        obtain ⟨c', t', hw', hm⟩ := sameWord_head (d := 'M') (by simp) hspell
        obtain ⟨rfl, -⟩ := List.cons.inj (hw.symm.trans hw')
        exact absurd (hm.symm.trans hstar) (by decide)
      | _ => exact absurd hfive (by decide)
    refine str_fails ?_
    rw [hmul]
    simp [afterPrefix, (blank_ne hb (d := '*') (by decide)).symm]
  · refine levelOp_fails hk ?_
    rw [hw, List.cons_append, stops_cons]
    simpa using hmem

/-! ## Operands with their unary operators -/

/-- An operand is read as one unary expression. -/
structure OperandReads (R : LiteralReaders) (i : Operand) : Prop where
  head : ∃ c t, i.text = c :: t ∧ (isNameChar c || c == '(' || c == '-') = true
  noComment : ∀ rest, noComment (i.text ++ rest) = true
  unnamed : ∀ rest, Follows rest →
    Fails grammar (parts [.call .identifier, str ":="]) (i.text ++ rest)
  reads : ∀ rest, Follows rest → ∃ p w, Reads grammar (.call .unaryExpr) (i.text ++ rest) [p] w ∧
    (w = rest ∨ w = trim rest) ∧ parseUnaryExpr R p = .ok i.expr

theorem not_nameChar_of_blank {c : Char} (h : isBlank c = true) : isNameChar c = false := by
  simp only [isBlank, Bool.or_eq_true, beq_iff_eq] at h
  rcases h with ((rfl | rfl) | rfl) | rfl <;> decide

/-- No operand starts with a blank. -/
theorem stops_blank_of_head {c : Char} (h : (isNameChar c || c == '(' || c == '-') = true)
    (s : List Char) : Stops isBlank (c :: s) := by
  rw [stops_cons]
  by_contra hblank
  have hb : isBlank c = true := by simpa using hblank
  rw [not_nameChar_of_blank hb] at h
  simp only [Bool.false_or, Bool.or_eq_true, beq_iff_eq] at h
  rcases h with rfl | rfl <;> exact absurd hb (by decide)

theorem PrimaryReads.trim_eq {text : List Char} {value : Expression}
    (h : PrimaryReads R text value) (rest : List Char) : trim (text ++ rest) = text ++ rest := by
  obtain ⟨c, t, rfl, hc⟩ := h.head
  exact trim_of_stops (stops_blank_of_head (by simp [hc]) _)

theorem SignText.op_reads (s : SignText) (t : List Char) :
    Reads grammar (.call .unaryOp) (s.word ++ t) [.node .unaryOp s.word []] t := by
  obtain ⟨op, w, after, hspell, apart⟩ := s
  refine visible_reads rfl ?_
  cases op with
  | neg =>
    obtain rfl : w = _ := hspell
    exact Reads.choice_left _ (str_reads_append (by simp) _)
  | not =>
    obtain ⟨c, u, hw, hc⟩ := sameWord_head (d := 'N') (by simp) hspell
    refine Reads.choice_right (str_fails_of_head (d := '-') (by simp) ?_) (word_reads hspell _)
    show Stops _ (w ++ t)
    rw [hw, List.cons_append, stops_cons, beq_eq_false_iff_ne]
    rintro rfl
    exact absurd hc (by decide)

theorem SignText.operator_eq (s : SignText) :
    unaryOperator (.node .unaryOp s.word []) = .ok s.op := by
  obtain ⟨op, w, after, hspell, apart⟩ := s
  cases op with
  | neg =>
    obtain rfl : w = _ := hspell
    rfl
  | not =>
    have hupper : w.map Char.toUpper = "NOT".toList := map_toUpper_of_sameWord hspell
    simp [unaryOperator, hupper]

/-- A keyword is an identifier. -/
theorem isIdentifier_of_sameWord {w : String} {d : Char} (hw : w.toList.head? = some d)
    (hd : d.toLower.isDigit = false) (hall : w.toList.all isNameChar = true) {text : List Char}
    (h : sameWord w text = true) : isIdentifier text = true := by
  obtain ⟨c, t, rfl, hc⟩ := sameWord_head hw h
  have hchars : (c :: t).all isNameChar = true := by
    rw [all_isNameChar_of_map (by simpa [sameWord] using h), hall]
  simp only [List.all_cons, Bool.and_eq_true] at hchars
  have hdigit : c.isDigit = false := by
    by_contra hdig
    rw [toLower_of_isDigit (by simpa using hdig)] at hc
    rw [← hc] at hd
    exact hdig hd
  have hstart : isNameStart c = true := by
    have hchar := hchars.1
    simp only [isNameChar, Char.isAlphanum, hdigit, Bool.or_false] at hchar
    exact hchar
  simp [isIdentifier, hstart, hchars.2]

theorem SignText.head (s : SignText) :
    ∃ c t, s.word = c :: t ∧ (isNameChar c || c == '(' || c == '-') = true := by
  obtain ⟨op, w, after, hspell, apart⟩ := s
  cases op with
  | neg =>
    obtain rfl : w = _ := hspell
    exact ⟨'-', [], rfl, by decide⟩
  | not =>
    have hname := isIdentifier_of_sameWord (d := 'N') (by simp) (by decide) (by decide) hspell
    obtain ⟨c, t, hw, hc⟩ := identifier_head hname
    exact ⟨c, t, hw, by simp [isNameChar_of_isNameStart hc]⟩

theorem SignText.noComment (s : SignText) (t : List Char) :
    Compiler.noComment (s.word ++ t) = true := by
  obtain ⟨op, w, after, hspell, apart⟩ := s
  cases op with
  | neg =>
    obtain rfl : w = _ := hspell
    exact noComment_of_ne (by decide) (by decide) _
  | not =>
    have hname := isIdentifier_of_sameWord (d := 'N') (by simp) (by decide) (by decide) hspell
    obtain ⟨c, u, hw, hc⟩ := identifier_head hname
    show Compiler.noComment (w ++ t) = true
    rw [hw]
    exact noComment_of_nameChar (isNameChar_of_isNameStart hc) _

/-- A unary operator is not the name of an argument. -/
theorem SignText.unnamed (s : SignText) {t : List Char}
    (hstop : Stops (fun c => c == ':') (trim (s.after.1 ++ t)))
    (hcomment : Compiler.noComment (trim (s.after.1 ++ t)) = true) :
    Fails grammar (parts [.call .identifier, str ":="]) (s.word ++ (s.after.1 ++ t)) := by
  obtain ⟨op, w, after, hspell, apart⟩ := s
  cases op with
  | neg =>
    obtain rfl : w = _ := hspell
    exact Fails.seq_left _ (identifier_fails (by simp [isNameStart]))
  | not =>
    have hname := isIdentifier_of_sameWord (d := 'N') (by simp) (by decide) (by decide) hspell
    refine unnamed_of_name hname ?_ hstop hcomment
    obtain ⟨g, hblank⟩ := after
    cases g with
    | nil => exact absurd rfl (apart rfl)
    | cons b g =>
      exact (tokenEnds_of_blank (by simpa using hblank : _ ∧ _).1 _).name

theorem operandReads {i : Operand} (h : PrimaryReads R i.primary i.value) : OperandReads R i := by
  obtain ⟨sign, primary, value⟩ := i
  cases sign with
  | none =>
    -- without a sign the operand is its primary
    refine ⟨?_, h.noComment, h.unnamed, fun rest hrest => ?_⟩
    · obtain ⟨c, t, htext, hc⟩ := h.head
      exact ⟨c, t, htext, by simp [hc]⟩
    · obtain ⟨p, w, hread, hw, hrule, hparse⟩ := h.reads rest hrest
      have hskip := skip_reads (s := primary ++ rest) (by rw [h.trim_eq]; exact h.noComment rest)
      rw [h.trim_eq] at hskip
      have hbody : Reads grammar (ruleBody .unaryExpr) (primary ++ rest) [p] w :=
        Reads.seq (Reads.opt_none (h.unsigned rest hrest)) (Reads.seq hskip hread)
      refine ⟨_, w, Reads.call (r := Rule.unaryExpr) hbody, hw, ?_⟩
      show parseUnaryExpr R (.node _ _ [p]) = _
      rw [parseUnaryExpr, if_neg (by rw [hrule]; decide), hparse]
      rfl
  | some s =>
    -- the blanks after the sign are skipped before the primary is read
    have htext : ∀ rest, Operand.text ⟨some s, primary, value⟩ ++ rest =
        s.word ++ (s.after.1 ++ (primary ++ rest)) := fun rest => by
      simp [Operand.text, SignText.text]
    have htrim : ∀ rest, trim (s.after.1 ++ (primary ++ rest)) = primary ++ rest := fun rest => by
      rw [trim_append_of_blank s.after.2, h.trim_eq]
    refine ⟨?_, fun rest => ?_, fun rest hrest => ?_, fun rest hrest => ?_⟩
    · obtain ⟨c, t, hword, hc⟩ := s.head
      exact ⟨c, t ++ (s.after.1 ++ primary), by simp [Operand.text, SignText.text, hword], hc⟩
    · rw [htext]
      exact s.noComment _
    · rw [htext]
      refine s.unnamed ?_ ?_
      · rw [htrim]
        obtain ⟨c, t, hhead, hc⟩ := h.head
        have hprimary : primary = c :: t := hhead
        rw [hprimary, List.cons_append, stops_cons, beq_eq_false_iff_ne]
        rintro rfl
        exact absurd hc (by decide)
      · rw [htrim]
        exact h.noComment rest
    · obtain ⟨p, w, hread, hw, -, hparse⟩ := h.reads rest hrest
      have hskip := skip_reads (s := s.after.1 ++ (primary ++ rest))
        (by rw [htrim]; exact h.noComment rest)
      rw [htrim] at hskip
      have hbody : Reads grammar (ruleBody .unaryExpr)
          (Operand.text ⟨some s, primary, value⟩ ++ rest)
          [.node .unaryOp s.word [], p] w := by
        rw [htext]
        exact Reads.seq (Reads.opt_some (s.op_reads _)) (Reads.seq hskip hread)
      refine ⟨_, w, Reads.call (r := Rule.unaryExpr) hbody, hw, ?_⟩
      show parseUnaryExpr R (.node _ _ [.node .unaryOp s.word [], p]) = _
      rw [parseUnaryExpr, if_pos (Pair.rule_node _ _ _), s.operator_eq, hparse]
      rfl

/-! ## One level -/

/-- What may follow the part of a chain that a level reads: the end of the chain or an operator
that is weaker than the level. -/
def Followed (k : Nat) (rest : List Char) : Prop :=
  Closed rest ∨ ∃ (o : OpText) (s : List Char), o.level < k ∧ rest = o.text ++ s

theorem OpText.head (o : OpText) :
    ∃ c t, o.word = c :: t ∧ (heads o.level).contains c.toLower = true :=
  spells_head o.spelled

theorem OpText.trim_text (o : OpText) (s : List Char) :
    trim (o.text ++ s) = o.word ++ (o.after.1 ++ s) := by
  obtain ⟨c, t, hw, hc⟩ := o.head
  have hlow := heads_satisfy (fun d => !isBlank d) (by decide) o.level_lt (d := c.toLower)
    (by simpa using hc)
  have hblank : isBlank c = false := by
    by_contra hb
    have hb' : isBlank c = true := by simpa using hb
    simp only [isBlank, Bool.or_eq_true, beq_iff_eq] at hb'
    rcases hb' with ((rfl | rfl) | rfl) | rfl <;> exact absurd hlow (by decide)
  rw [text, List.append_assoc, trim_append_of_blank o.before.2.1, List.append_assoc, hw]
  exact trim_of_stops (by simpa using hblank)

/-- Only a division starts with a slash. -/
theorem spells_slash {op : BinaryOp} {t : List Char} (h : Spells op ('/' :: t)) : t = [] := by
  cases op <;> simp_all [Spells, sameWord]

theorem noComment_of_second {c d : Char} (hslash : d ≠ '/') (hstar : d ≠ '*') (s : List Char) :
    noComment (c :: d :: s) = true := by
  rw [noComment.eq_def]
  split <;> simp_all

theorem OpText.noComment (o : OpText) (s : List Char) :
    Compiler.noComment (o.word ++ (o.after.1 ++ s)) = true := by
  obtain ⟨c, t, hw, hc⟩ := o.head
  obtain ⟨b, g, hafter, hb⟩ := o.after.head
  rw [hw, hafter]
  by_cases hslash : c = '/'
  · have hone : t = [] := spells_slash (hslash ▸ hw ▸ o.spelled)
    rw [hone]
    exact noComment_of_second (blank_ne hb (by decide)) (blank_ne hb (by decide)) _
  · refine noComment_of_ne hslash ?_ _
    rintro rfl
    exact absurd (heads_satisfy (· != '(') (by decide) o.level_lt (d := '(') (by simpa using hc))
      (by decide)

theorem OpText.follows (o : OpText) (s : List Char) : Follows (o.text ++ s) := by
  obtain ⟨c, t, hw, hc⟩ := o.head
  obtain ⟨b, g, hbefore, hb⟩ := o.before.head
  have hlow := heads_satisfy (fun d => !(d == '(' || d == '[' || d == '.' || d == ':')) (by decide)
    o.level_lt (d := c.toLower) (by simpa using hc)
  refine ⟨?_, ?_, ?_⟩
  · rw [text, hbefore]
    exact tokenEnds_of_blank hb _
  · rw [o.trim_text, hw, List.cons_append, stops_cons]
    by_contra hstop
    simp only [Bool.not_eq_false, Bool.or_eq_true, beq_iff_eq] at hstop
    rcases hstop with ((rfl | rfl) | rfl) | rfl <;> exact absurd hlow (by decide)
  · rw [o.trim_text]
    exact o.noComment s

theorem Followed.follows {k : Nat} {rest : List Char} (h : Followed k rest) : Follows rest := by
  rcases h with h | ⟨o, s, -, rfl⟩
  · exact h.follows
  · exact o.follows s

theorem Followed.mono {k k' : Nat} (hle : k ≤ k') {rest : List Char} (h : Followed k rest) :
    Followed k' rest := by
  rcases h with h | ⟨o, s, hlevel, rfl⟩
  · exact .inl h
  · exact .inr ⟨o, s, by omega, rfl⟩

/-- The loop of a level ends at what may follow. -/
theorem Followed.op_fails {k : Nat} (hk : k < 7) {rest : List Char} (h : Followed k rest) :
    Fails grammar (levelOp k) (trim rest) := by
  rcases h with h | ⟨o, s, hlevel, rfl⟩
  · refine levelOp_fails hk (Stops.mono h fun c hc => ?_)
    have hlow := heads_satisfy (fun d => !(d == ')' || d == ',')) (by decide) hk (d := c.toLower)
      (by simpa using hc)
    by_contra hne
    simp only [Bool.not_eq_true, Bool.not_eq_false', Bool.or_eq_true, beq_iff_eq] at hne
    rcases hne with rfl | rfl <;> exact absurd hlow (by decide)
  · rw [o.trim_text]
    obtain ⟨b, g, hafter, hb⟩ := o.after.head
    rw [hafter]
    exact Compiler.op_fails o.spelled hk hlevel hb _

/-- The tree's text is read by the level's rule, and the level's function gives the tree. -/
def LevelReads (R : LiteralReaders) (k : Nat) (t : OpTree Operand OpText) : Prop :=
  (∀ i ∈ t.leaves, OperandReads R i) → ∀ rest, Followed k rest →
    ∃ p w, Reads grammar (.call (levelRule k)) (treeText t ++ rest) [p] w ∧
      (w = rest ∨ w = trim rest) ∧ parseAt R k p = .ok (treeExpr t)

/-- The text of operators with their right parts. -/
def partsText (bs : List (OpText × OpTree Operand OpText)) : List Char :=
  bs.flatMap fun b => b.1.text ++ treeText b.2

/-- One operator of a level with its right part. -/
def iteration (k : Nat) : Peg Rule :=
  parts [levelOp k, .call (levelRule (k + 1))]

theorem treeText_head (t : OpTree Operand OpText) :
    ∃ i ∈ t.leaves, ∃ s, treeText t = i.text ++ s := by
  refine ⟨t.first, ?_, restText t.rest, ?_⟩
  · rw [← t.chain_operands]
    exact List.mem_cons_self
  · rw [treeText_eq]
    rfl

/-- No blank and no comment comes before a tree's text. -/
theorem skip_before_tree {t : OpTree Operand OpText} (h : ∀ i ∈ t.leaves, OperandReads R i)
    {g : List Char} (hg : g.all isBlank = true) (rest : List Char) :
    Reads grammar skip (g ++ (treeText t ++ rest)) [] (treeText t ++ rest) := by
  obtain ⟨i, hi, s, htext⟩ := treeText_head t
  obtain ⟨c, u, hhead, hc⟩ := (h i hi).head
  have htrim : trim (g ++ (treeText t ++ rest)) = treeText t ++ rest := by
    rw [trim_append_of_blank hg, htext, hhead]
    exact trim_of_stops (stops_blank_of_head hc _)
  have hread := skip_reads (s := g ++ (treeText t ++ rest)) (by
    rw [htrim, htext, List.append_assoc]
    exact (h i hi).noComment _)
  rwa [htrim] at hread

/-- An operator of the level and its right part are read together. -/
theorem iteration_reads {o : OpText} {t : OpTree Operand OpText}
    (h : LevelReads R (o.level + 1) t) (hleaves : ∀ i ∈ t.leaves, OperandReads R i)
    {rest : List Char} (hrest : Followed (o.level + 1) rest) :
    ∃ p w, Reads grammar (iteration o.level) (trim (o.text ++ (treeText t ++ rest)))
        (opNodes o.level o.word ++ [p]) w ∧
      (w = rest ∨ w = trim rest) ∧ parseAt R (o.level + 1) p = .ok (treeExpr t) := by
  obtain ⟨p, w, hread, hw, hparse⟩ := h hleaves rest hrest
  obtain ⟨b, g, hafter, hb⟩ := o.after.head
  refine ⟨p, w, ?_, hw, hparse⟩
  rw [o.trim_text]
  refine Reads.seq ?_ (Reads.seq (skip_before_tree hleaves o.after.2.1 rest) hread)
  rw [hafter]
  exact op_reads o.spelled hb _

/-- What comes after a part of a level continues the part. -/
theorem continues_parts {k : Nat} {bs : List (OpText × OpTree Operand OpText)}
    (hbs : ∀ b ∈ bs, b.1.level = k) {rest : List Char} (hrest : Followed k rest) :
    Followed (k + 1) (partsText bs ++ rest) := by
  cases bs with
  | nil => exact hrest.mono (Nat.le_succ k)
  | cons b bs =>
    have hlevel := hbs b List.mem_cons_self
    refine .inr ⟨b.1, treeText b.2 ++ (partsText bs ++ rest), by omega, ?_⟩
    simp [partsText]

/-- A part of a level: an operator of the level and a tree that the level above reads. -/
def IsPart (R : LiteralReaders) (k : Nat) (b : OpText × OpTree Operand OpText) : Prop :=
  b.1.level = k ∧ LevelReads R (k + 1) b.2 ∧ ∀ i ∈ b.2.leaves, OperandReads R i

/-- The blanks before the next part are skipped, where they are not skipped already. -/
theorem skip_before_parts {k : Nat} {bs : List (OpText × OpTree Operand OpText)}
    (hbs : ∀ b ∈ bs, IsPart R k b) {rest : List Char} (hrest : Followed k rest) {w : List Char}
    (hw : w = partsText bs ++ rest ∨ w = trim (partsText bs ++ rest)) :
    Reads grammar skip w [] (trim (partsText bs ++ rest)) := by
  have hcomment := (continues_parts (fun b hb => (hbs b hb).1) hrest).follows.noComment
  rcases hw with rfl | rfl
  · exact skip_reads hcomment
  · have hread := skip_reads (s := trim (partsText bs ++ rest)) (by rw [trim_trim]; exact hcomment)
    rwa [trim_trim] at hread

/-- The first of several parts is read in one iteration. -/
theorem first_iteration {k : Nat} {b : OpText × OpTree Operand OpText}
    {bs : List (OpText × OpTree Operand OpText)} (hbs : ∀ b' ∈ b :: bs, IsPart R k b')
    {rest : List Char} (hrest : Followed k rest) :
    ∃ p w, Reads grammar (iteration k) (trim (partsText (b :: bs) ++ rest))
        (opNodes k b.1.word ++ [p]) w ∧
      (w = partsText bs ++ rest ∨ w = trim (partsText bs ++ rest)) ∧
      parseAt R (k + 1) p = .ok (treeExpr b.2) := by
  obtain ⟨hlevel, hreads, hleaves⟩ := hbs b List.mem_cons_self
  have htext : partsText (b :: bs) ++ rest =
      b.1.text ++ (treeText b.2 ++ (partsText bs ++ rest)) := by
    simp [partsText]
  have hnext := continues_parts (fun b' hb' => (hbs b' (List.mem_cons_of_mem _ hb')).1) hrest
  subst hlevel
  rw [htext]
  exact iteration_reads hreads hleaves hnext

/-- The loop of a level after its first part: the text of the remaining parts, with or without the
blanks before it, is read up to the rest, and the parts are folded to the left. -/
theorem loop_reads {k : Nat} (hk : k < 7) {rest : List Char} (hrest : Followed k rest)
    (bs : List (OpText × OpTree Operand OpText)) (hbs : ∀ b ∈ bs, IsPart R k b) {w₀ : List Char}
    (hw₀ : w₀ = partsText bs ++ rest ∨ w₀ = trim (partsText bs ++ rest)) :
    ∃ ps w, Reads grammar (.star (.seq skip (iteration k))) w₀ ps w ∧ (w = rest ∨ w = trim rest) ∧
      ∀ left, loopAt R k left ps =
        .ok (bs.foldl (fun l b => .binary l b.1.op (treeExpr b.2)) left) := by
  have hskip := skip_before_parts hbs hrest hw₀
  -- on the parts, each of which is one iteration
  induction bs generalizing w₀ with
  | nil =>
    have hstop : Fails grammar (iteration k) (trim (partsText [] ++ rest)) :=
      Fails.seq_left _ (hrest.op_fails hk)
    exact ⟨[], w₀, Reads.star_stop (Fails.seq_right hskip hstop), hw₀, loopAt_nil hk⟩
  | cons b bs ih =>
    have hbs' : ∀ b' ∈ bs, IsPart R k b' := fun b' hb' => hbs b' (List.mem_cons_of_mem _ hb')
    obtain ⟨p, w₁, hread, hw₁, hparse⟩ := first_iteration hbs hrest
    obtain ⟨ps, w, hstar, hw, hloop⟩ := ih hbs' hw₁ (skip_before_parts hbs' hrest hw₁)
    refine ⟨_, w, Reads.star_step (Reads.seq hskip hread) hstar, hw, fun left => ?_⟩
    have hlevel := (hbs b List.mem_cons_self).1
    subst hlevel
    rw [List.nil_append, List.append_assoc, List.singleton_append, loopAt_step b.1 hparse, hloop]
    rfl

/-- The fold of a level: its first part is read by the level above, and the loop reads the rest. -/
theorem levelReads_extend {k : Nat} (hk : k < 7) {a : OpTree Operand OpText}
    {bs : List (OpText × OpTree Operand OpText)} (ha : LevelReads R (k + 1) a)
    (hbs : ∀ b ∈ bs, b.1.level = k ∧ LevelReads R (k + 1) b.2) : LevelReads R k (a.extend bs) := by
  intro hleaves rest hrest
  rw [OpTree.leaves_extend] at hleaves
  have hfirst : ∀ i ∈ a.leaves, OperandReads R i :=
    fun i hi => hleaves i (List.mem_append_left _ hi)
  have hparts : ∀ b ∈ bs, IsPart R k b := fun b hb =>
    ⟨(hbs b hb).1, (hbs b hb).2, fun i hi =>
      hleaves i (List.mem_append_right _ (List.mem_flatMap_of_mem hb hi))⟩
  have hnext := continues_parts (fun b hb => (hbs b hb).1) hrest
  obtain ⟨p, w₀, hread, hw₀, hparse⟩ := ha hfirst _ hnext
  have hskip := skip_before_parts hparts hrest hw₀
  -- the iterations of the grammar are the turns of the loop that folds to the left
  have hloop : ∃ ps w, Reads grammar (many (iteration k)) (trim (partsText bs ++ rest)) ps w ∧
      (w = rest ∨ w = trim rest) ∧ ∀ left, loopAt R k left ps =
        .ok (bs.foldl (fun l b => .binary l b.1.op (treeExpr b.2)) left) := by
    cases bs with
    | nil =>
      have hstop : Fails grammar (iteration k) (trim (partsText [] ++ rest)) :=
        Fails.seq_left _ (hrest.op_fails hk)
      exact ⟨[], _, Reads.opt_none (Fails.seq_left _ hstop), .inr rfl, loopAt_nil hk⟩
    | cons b bs =>
      obtain ⟨q, w₁, hiter, hw₁, hparse'⟩ := first_iteration hparts hrest
      obtain ⟨ps, w, hstar, hw, hfold⟩ := loop_reads hk hrest bs
        (fun b' hb' => hparts b' (List.mem_cons_of_mem _ hb')) hw₁
      refine ⟨_, w, Reads.opt_some (Reads.seq hiter hstar), hw, fun left => ?_⟩
      have hlevel := (hparts b List.mem_cons_self).1
      subst hlevel
      rw [List.append_assoc, List.singleton_append, loopAt_step b.1 hparse', hfold]
      rfl
  obtain ⟨ps, w, hmany, hw, hfold⟩ := hloop
  have hbody : Reads grammar (ruleBody (levelRule k)) (treeText (a.extend bs) ++ rest)
      (p :: ps) w := by
    rw [levelRule_body hk, treeText_extend, List.append_assoc]
    exact Reads.seq hread (Reads.seq hskip hmany)
  have hnode := Reads.call (r := levelRule k) hbody
  rw [show grammar.shape (levelRule k) = .visible from levelRule_shape k] at hnode
  refine ⟨_, w, hnode, hw, ?_⟩
  rw [parseAt_node hk, hparse, treeExpr_extend]
  exact hfold _

/-- Each level reads the trees whose operators are at least as strong as its own. -/
theorem levelReads_of_grouped {t : OpTree Operand OpText} (h : t.Grouped OpText.level) {k : Nat}
    (hk : k ≤ 7) (habove : t.Above OpText.level k) : LevelReads R k t := by
  refine OpTree.Grouped.by_levels (fun o => o.level_lt) (fun i => ?_) (fun k hk a bs ha hbs => ?_)
    h hk habove
  · intro hleaves rest hrest
    exact (hleaves i (List.mem_singleton.2 rfl)).reads rest hrest.follows
  · exact levelReads_extend hk ha hbs

/-! ## Whole chains -/

/-- A chain is read as one expression, up to blanks after it. -/
theorem chain_reads {c : OpChain} (h : ∀ i ∈ c.operands, OperandReads R i) {rest : List Char}
    (hrest : Closed rest) :
    ∃ p w, Reads grammar (.call .expression) (chainText c ++ rest) [p] w ∧
      (w = rest ∨ w = trim rest) ∧ parseExpression R p = .ok (chainExpr c) ∧
      p.rule = .expression := by
  have hchain : (c.group OpText.level).chain = c := c.group_chain OpText.level
  have hgrouped := c.group_grouped OpText.level
  have habove : (c.group OpText.level).Above OpText.level 0 := by
    cases c.group OpText.level with
    | leaf i => trivial
    | node l o r => exact Nat.zero_le _
  have hleaves : ∀ i ∈ (c.group OpText.level).leaves, OperandReads R i := by
    rw [← OpTree.chain_operands, hchain]
    exact h
  obtain ⟨p, w, hread, hw, hparse⟩ :=
    levelReads_of_grouped hgrouped (Nat.zero_le 7) habove hleaves rest (.inl hrest)
  rw [treeText_eq, hchain] at hread
  refine ⟨_, w, Reads.call (r := Rule.expression) hread, hw, ?_, rfl⟩
  exact hparse

/-! ## One operand -/

/-- Nothing is skipped where neither a blank nor a comment comes first. -/
theorem skip_nothing {c : Char} (hblank : isBlank c = false) (hslash : c ≠ '/') (hparen : c ≠ '(')
    (s : List Char) : Reads grammar skip (c :: s) [] (c :: s) := by
  have htrim : trim (c :: s) = c :: s := trim_of_stops ((stops_cons _ _ _).2 hblank)
  have hread := skip_reads (s := c :: s) (by rw [htrim]; exact noComment_of_ne hslash hparen s)
  rwa [htrim] at hread

theorem digit_not_blank {c : Char} (h : c.isDigit = true) : isBlank c = false := by
  by_contra hblank
  have hno := not_nameChar_of_blank (by simpa using hblank)
  rw [isNameChar_of_isDigit h] at hno
  exact absurd hno (by decide)

/-- An operand that no operator follows is a whole expression. -/
theorem single_reads {s rest : List Char} {p : Node}
    (h : Reads grammar (.call .unaryExpr) s [p] rest) (hskip : Reads grammar skip rest [] rest)
    (hops : ∀ k < 7, Fails grammar (levelOp k) rest) :
    ∃ q, Reads grammar (.call .expression) s [q] rest ∧
      ∀ R, parseExpression R q = parseUnaryExpr R p := by
  -- from the unary expressions to the weakest operator
  have hlevels : ∀ k ≤ 7, ∃ q, Reads grammar (.call (levelRule (7 - k))) s [q] rest ∧
      ∀ R, parseAt R (7 - k) q = parseUnaryExpr R p := by
    intro k hk
    induction k with
    | zero => exact ⟨p, h, fun R => rfl⟩
    | succ k ih =>
      obtain ⟨q, hread, hparse⟩ := ih (by omega)
      have hlt : 7 - (k + 1) < 7 := by omega
      have hnext : 7 - (k + 1) + 1 = 7 - k := by omega
      have hbody : Reads grammar (ruleBody (levelRule (7 - (k + 1)))) s [q] rest := by
        rw [levelRule_body hlt, hnext]
        exact Reads.seq hread (Reads.seq hskip
          (Reads.opt_none (Fails.seq_left _ (Fails.seq_left _ (hops _ hlt)))))
      have hnode := Reads.call (r := levelRule (7 - (k + 1))) hbody
      rw [show grammar.shape (levelRule (7 - (k + 1))) = .visible from levelRule_shape _] at hnode
      refine ⟨_, hnode, fun R => ?_⟩
      rw [parseAt_node hlt, hnext, hparse]
      cases parseUnaryExpr R p with
      | error m => rfl
      | ok left => exact loopAt_nil hlt left
  obtain ⟨q, hread, hparse⟩ := hlevels 7 (Nat.le_refl 7)
  exact ⟨_, Reads.call (r := Rule.expression) hread, hparse⟩

/-- An integer literal as a unary expression without an operator. -/
theorem unary_reads_integer {text : List Char} (h : IntegerText text) {rest : List Char}
    (hends : NumberEnds rest) :
    ∃ p, Reads grammar (.call .unaryExpr) (text ++ rest) [p] rest ∧
      ∀ R, parseUnaryExpr R p = (integerValue text).map fun v => .literal (.integer v) := by
  obtain ⟨p, hprimary, hrule, hparse⟩ := primary_reads_integer h hends
  obtain ⟨d, ds, htext, hd⟩ := h.shape.1
  have hchar := isNameChar_of_isDigit hd
  have hskip : Reads grammar skip (text ++ rest) [] (text ++ rest) := by
    rw [htext]
    exact skip_nothing (digit_not_blank hd) (isNameChar_ne hchar (by decide))
      (isNameChar_ne hchar (by decide)) _
  have hbody : Reads grammar (ruleBody .unaryExpr) (text ++ rest) [p] rest :=
    Reads.seq (Reads.opt_none (unaryOp_fails_of_integer h rest)) (Reads.seq hskip hprimary)
  refine ⟨_, Reads.call (r := Rule.unaryExpr) hbody, fun R => ?_⟩
  show parseUnaryExpr R (.node _ _ [p]) = _
  rw [parseUnaryExpr, if_neg (by rw [hrule]; decide), hparse]

/-- An integer literal alone is a whole expression. -/
theorem expression_reads_integer {text : List Char} (h : IntegerText text) :
    ∃ p, parse grammar (.call .expression) text = some (.ok [p] []) ∧
      ∀ R, parseExpression R p = (integerValue text).map fun v => .literal (.integer v) := by
  have hends : NumberEnds [] := closed_nil.follows.ends.number
  obtain ⟨p, hunary, hparse⟩ := unary_reads_integer h hends
  obtain ⟨q, hread, hsame⟩ := single_reads hunary (skip_reads (s := []) rfl)
    fun k hk => levelOp_fails hk (stops_nil _)
  rw [List.append_nil] at hread
  refine ⟨q, hread, fun R => ?_⟩
  rw [hsame, hparse]

end VirtualPlc.Compiler

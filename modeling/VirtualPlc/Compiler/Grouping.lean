import VirtualPlc.Compiler.ChainParsing

/-!
# Operators are grouped by their levels

Parenthesised chains and calls are operands too: their text is read by the rule for primary
expressions once the chains inside are. By induction over the operands of a program every chain is
read whole, and the tree that is built from it is the only one in which stronger operators bind
tighter and operators of one level group to the left.
-/

set_option autoImplicit false

namespace VirtualPlc.Compiler

open VirtualPlc.Parsing

variable {R : LiteralReaders}

/-! ## Blanks before the next part -/

/-- Blanks before a character that is no blank are skipped, where they are not skipped already. -/
theorem skip_before {g : List Char} (hg : g.all isBlank = true) {c : Char} {s : List Char}
    (hc : isBlank c = false) (hcomment : noComment (c :: s) = true) {w : List Char}
    (hw : w = g ++ c :: s ∨ w = trim (g ++ c :: s)) : Reads grammar skip w [] (c :: s) := by
  have htrim : trim (g ++ c :: s) = c :: s := by
    rw [trim_append_of_blank hg]
    exact trim_of_stops (by simpa using hc)
  have hread := skip_reads (s := g ++ c :: s) (by rw [htrim]; exact hcomment)
  have hread' := skip_reads (s := c :: s)
    (by rw [← htrim, trim_trim, htrim]; exact hcomment)
  rw [htrim] at hread hw
  rw [← htrim, trim_trim, htrim] at hread'
  rcases hw with rfl | rfl
  · exact hread
  · exact hread'

/-- The character that closes a list or separates its parts comes next. -/
theorem skip_before_close {g : List Char} (hg : g.all isBlank = true) {c : Char} {s : List Char}
    (hc : c = ')' ∨ c = ',') {w : List Char} (hw : w = g ++ c :: s ∨ w = trim (g ++ c :: s)) :
    Reads grammar skip w [] (c :: s) := by
  refine skip_before hg ?_ (noComment_of_ne ?_ ?_ s) hw <;> rcases hc with rfl | rfl <;> decide

/-- Blanks end a name, and so does what is no name character. -/
theorem name_stops_before {g : List Char} (hg : g.all isBlank = true) {c : Char}
    (hc : isNameChar c = false) (s : List Char) : Stops isNameChar (g ++ c :: s) := by
  cases g with
  | nil => simpa using hc
  | cons b g =>
    have hb : isBlank b = true := (by simpa using hg : _ ∧ _).1
    simpa using not_nameChar_of_blank hb

/-- A parenthesis opens no comment where a blank or no star follows it. -/
theorem noComment_open {g : List Char} (hg : g.all isBlank = true) {d : Char} (hslash : d ≠ '/')
    (hstar : d ≠ '*') (s : List Char) : noComment ('(' :: (g ++ d :: s)) = true := by
  cases g with
  | nil => exact noComment_of_second hslash hstar s
  | cons b g =>
    have hb : isBlank b = true := (by simpa using hg : _ ∧ _).1
    exact noComment_of_second (blank_ne hb (by decide)) (blank_ne hb (by decide)) _

/-- What no operand starts with. -/
theorem start_ne {c d : Char} (hc : (isNameChar c || c == '(' || c == '-') = true)
    (hd : (isNameChar d || d == '(' || d == '-') = false) : c ≠ d := by
  rintro rfl
  rw [hc] at hd
  exact absurd hd (by decide)

/-- The first operand of a chain. -/
theorem chain_head {c : OpChain} (h : ∀ i ∈ c.operands, OperandReads R i) :
    OperandReads R c.first :=
  h c.first List.mem_cons_self

theorem chain_start {c : OpChain} (h : ∀ i ∈ c.operands, OperandReads R i) :
    ∃ d t, chainText c = d :: t ∧ (isNameChar d || d == '(' || d == '-') = true := by
  obtain ⟨d, t, htext, hd⟩ := (chain_head h).head
  exact ⟨d, t ++ restText c.rest, by rw [chainText, htext]; rfl, hd⟩

theorem skip_before_chain {c : OpChain} (h : ∀ i ∈ c.operands, OperandReads R i) {g : List Char}
    (hg : g.all isBlank = true) (rest : List Char) :
    Reads grammar skip (g ++ (chainText c ++ rest)) [] (chainText c ++ rest) := by
  obtain ⟨d, t, htext, hd⟩ := chain_start h
  have hcomment : noComment (chainText c ++ rest) = true := by
    rw [chainText, List.append_assoc]
    exact (chain_head h).noComment _
  rw [htext] at hcomment ⊢
  exact skip_before hg ((stops_cons _ _ _).1 (stops_blank_of_head hd t)) hcomment (.inl rfl)

/-- A chain does not start like a named argument. -/
theorem chain_unnamed {c : OpChain} (h : ∀ i ∈ c.operands, OperandReads R i) {rest : List Char}
    (hrest : Closed rest) :
    Fails grammar (parts [.call .identifier, str ":="]) (chainText c ++ rest) := by
  rw [chainText, List.append_assoc]
  refine (chain_head h).unnamed _ ?_
  cases hr : c.rest with
  | nil => exact hrest.follows
  | cons b bs =>
    have htext : restText (b :: bs) ++ rest = b.1.text ++ (b.2.text ++ restText bs ++ rest) := by
      simp [restText]
    rw [htext]
    exact b.1.follows _

/-! ## Parentheses -/

theorem primaryReads_paren {c : OpChain} (h : ∀ i ∈ c.operands, OperandReads R i)
    (before after : Blanks) :
    PrimaryReads R ('(' :: (before.1 ++ (chainText c ++ (after.1 ++ [')']))))
      (.paren (chainExpr c)) := by
  refine ⟨⟨'(', _, rfl, by decide⟩, fun rest => ?_, fun rest _ => ?_, fun rest _ => ?_,
    fun rest _ => ?_⟩
  · obtain ⟨d, t, htext, hd⟩ := chain_start h
    rw [htext, List.cons_append, List.append_assoc]
    exact noComment_open before.2 (start_ne hd (by decide)) (start_ne hd (by decide)) _
  · exact Fails.call (Fails.choice (str_fails_of_head (d := '-') (by simp) (by simp))
      (word_fails (beginsWith_of_head (d := 'N') (by simp) (by decide) _)))
  · exact Fails.seq_left _ (identifier_fails (by simp [isNameStart]))
  · have hclosed : Closed (after.1 ++ ')' :: rest) := closed_append after.2 (by decide) rest
    obtain ⟨p, w, hread, hw, hparse, hrule⟩ := chain_reads h hclosed
    have hbody : Reads grammar (ruleBody .primaryExpr)
        ('(' :: (before.1 ++ (chainText c ++ (after.1 ++ [')']))) ++ rest) [p] rest := by
      refine Reads.choice_left _
        (Reads.seq (t := before.1 ++ (chainText c ++ (after.1 ++ ')' :: rest)))
        (str_reads (by simp [afterPrefix])) ?_)
      refine Reads.seq (skip_before_chain h before.2 _) (Reads.seq hread ?_)
      exact Reads.seq (skip_before_close after.2 (.inl rfl) hw) (str_reads (by simp [afterPrefix]))
    refine ⟨_, rest, Reads.call (r := Rule.primaryExpr) hbody, .inl rfl, rfl, ?_⟩
    show parsePrimaryExprInner R (.node _ _ [p]) = _
    simp only [parsePrimaryExprInner, hrule, hparse]
    rfl

/-! ## Arguments -/

/-- The operands of an argument are read. -/
def ArgumentReads (R : LiteralReaders) (a : Argument) : Prop :=
  ∀ i ∈ a.chain.operands, OperandReads R i

theorem argument_reads {a : Argument} (h : ArgumentReads R a) {rest : List Char}
    (hrest : Closed rest) :
    ∃ p w, Reads grammar (.call .argument) (a.text ++ rest) [p] w ∧ (w = rest ∨ w = trim rest) ∧
      parseArgument R p = .ok a.value ∧ p.rule = .argument := by
  obtain ⟨p, w, hread, hw, hparse, -⟩ := chain_reads h hrest
  obtain ⟨name, c⟩ := a
  cases name with
  | none =>
    have hbody : Reads grammar (ruleBody .argument) (chainText c ++ rest) [p] w :=
      Reads.seq (Reads.opt_none (chain_unnamed h hrest))
        (Reads.seq (skip_before_chain h (g := []) rfl rest) hread)
    refine ⟨_, w, Reads.call (r := Rule.argument) hbody, hw, ?_, rfl⟩
    show parseArgument R (.node _ _ [p]) = _
    rw [parseArgument, hparse]
    rfl
  | some n =>
    obtain ⟨name, before, after, hname⟩ := n
    -- blanks may stand on both sides of the assignment sign
    have hcolon : Reads grammar skip
        (before.1 ++ ':' :: '=' :: (after.1 ++ (chainText c ++ rest))) []
        (':' :: '=' :: (after.1 ++ (chainText c ++ rest))) :=
      skip_before before.2 (by decide) (noComment_of_ne (by decide) (by decide) _) (.inl rfl)
    have hends : Stops isNameChar (before.1 ++ ':' :: '=' :: (after.1 ++ (chainText c ++ rest))) :=
      name_stops_before before.2 (by decide) _
    have hnamed : Reads grammar (parts [.call .identifier, str ":="])
        (name ++ (before.1 ++ ':' :: '=' :: (after.1 ++ (chainText c ++ rest))))
        [.node .identifier name []] (after.1 ++ (chainText c ++ rest)) :=
      Reads.seq (identifier_reads hname hends)
        (Reads.seq hcolon (str_reads (by simp [afterPrefix])))
    have hbody : Reads grammar (ruleBody .argument)
        (Argument.text ⟨some ⟨name, before, after, hname⟩, c⟩ ++ rest)
        [.node .identifier name [], p] w := by
      have htext : Argument.text ⟨some ⟨name, before, after, hname⟩, c⟩ ++ rest =
          name ++ (before.1 ++ ':' :: '=' :: (after.1 ++ (chainText c ++ rest))) := by
        simp [Argument.text]
      rw [htext]
      exact Reads.seq (Reads.opt_some hnamed) (Reads.seq (skip_before_chain h after.2 rest) hread)
    refine ⟨_, w, Reads.call (r := Rule.argument) hbody, hw, ?_, rfl⟩
    show parseArgument R (.node _ _ [.node .identifier name [], p]) = _
    rw [parseArgument, hparse]
    rfl

theorem argument_start {a : Argument} (h : ArgumentReads R a) :
    (∃ d t, a.text = d :: t ∧ (isNameChar d || d == '(' || d == '-') = true) ∧
      ∀ rest, noComment (a.text ++ rest) = true := by
  obtain ⟨name, c⟩ := a
  cases name with
  | none =>
    refine ⟨chain_start h, fun rest => ?_⟩
    show noComment (chainText c ++ rest) = true
    rw [chainText, List.append_assoc]
    exact (chain_head h).noComment _
  | some n =>
    obtain ⟨d, t, hname, hd⟩ := identifier_head n.valid
    have hchar := isNameChar_of_isNameStart hd
    obtain ⟨u, hu⟩ : ∃ u, Argument.text ⟨some n, c⟩ = d :: u := by simp [Argument.text, hname]
    refine ⟨⟨d, u, hu, by simp [hchar]⟩, fun rest => ?_⟩
    rw [hu]
    exact noComment_of_nameChar hchar _

/-- No blank and no comment comes before an argument's text. -/
theorem skip_before_argument {a : Argument} (h : ArgumentReads R a) {g : List Char}
    (hg : g.all isBlank = true) (rest : List Char) :
    Reads grammar skip (g ++ (a.text ++ rest)) [] (a.text ++ rest) := by
  obtain ⟨⟨d, t, htext, hd⟩, hcomment⟩ := argument_start h
  have hnone := hcomment rest
  rw [htext] at hnone ⊢
  exact skip_before hg ((stops_cons _ _ _).1 (stops_blank_of_head hd t)) hnone (.inl rfl)

/-- A further argument with its comma. -/
def argumentStep : Peg Rule := parts [str ",", .call .argument]

/-- After an argument the list goes on with a comma or is closed. -/
theorem closed_arguments (rs : List (Comma × Argument)) {g : List Char}
    (hg : g.all isBlank = true) (s : List Char) :
    Closed (argumentsRest rs ++ (g ++ ')' :: s)) := by
  cases rs with
  | nil => exact closed_append hg (by decide) s
  | cons b rs =>
    have htext : argumentsRest (b :: rs) ++ (g ++ ')' :: s) = b.1.before.1 ++
        ',' :: (b.1.after.1 ++ b.2.text ++ argumentsRest rs ++ (g ++ ')' :: s)) := by
      simp [argumentsRest]
    rw [htext]
    exact closed_append b.1.before.2 (by decide) _

/-- One further argument: its comma, the blanks around it and its text. -/
theorem argumentStep_reads {b : Comma × Argument} (hb : ArgumentReads R b.2)
    (rs : List (Comma × Argument)) {g : List Char} (hg : g.all isBlank = true) (s : List Char)
    {w₀ : List Char} (hw₀ : w₀ = argumentsRest (b :: rs) ++ (g ++ ')' :: s) ∨
      w₀ = trim (argumentsRest (b :: rs) ++ (g ++ ')' :: s))) :
    ∃ t p w, Reads grammar skip w₀ [] t ∧ Reads grammar argumentStep t [p] w ∧
      (w = argumentsRest rs ++ (g ++ ')' :: s) ∨ w = trim (argumentsRest rs ++ (g ++ ')' :: s))) ∧
      parseArgument R p = .ok b.2.value ∧ p.rule = .argument := by
  have htext : argumentsRest (b :: rs) ++ (g ++ ')' :: s) = b.1.before.1 ++
      ',' :: (b.1.after.1 ++ (b.2.text ++ (argumentsRest rs ++ (g ++ ')' :: s)))) := by
    simp [argumentsRest]
  obtain ⟨p, w, hread, hw, hparse, hrule⟩ := argument_reads hb (closed_arguments rs hg s)
  rw [htext] at hw₀
  refine ⟨_, p, w, skip_before_close b.1.before.2 (.inr rfl) hw₀, ?_, hw, hparse, hrule⟩
  exact Reads.seq (str_reads (by simp [afterPrefix]))
    (Reads.seq (skip_before_argument hb b.1.after.2 _) hread)

theorem parseArgumentItems_cons {p : Node} {ps : List Node} {v : Option String × Expression}
    {vs : List (Option String × Expression)} (hrule : p.rule = .argument)
    (hp : parseArgument R p = .ok v) (hps : parseArgumentItems R ps = .ok vs) :
    parseArgumentItems R (p :: ps) = .ok (v :: vs) := by
  rw [parseArgumentItems, if_pos hrule, hp, hps]
  rfl

/-- The list is at its end where the parenthesis closes. -/
theorem argumentStep_fails (s : List Char) : Fails grammar argumentStep (')' :: s) :=
  Fails.seq_left _ (str_fails (by simp [afterPrefix]))

/-- The further arguments of a list, up to the blanks before the closing parenthesis. -/
theorem arguments_loop (rs : List (Comma × Argument)) (hrs : ∀ b ∈ rs, ArgumentReads R b.2)
    {g : List Char} (hg : g.all isBlank = true) (s : List Char) {w₀ : List Char}
    (hw₀ : w₀ = argumentsRest rs ++ (g ++ ')' :: s) ∨
      w₀ = trim (argumentsRest rs ++ (g ++ ')' :: s))) :
    ∃ ps w, Reads grammar (.star (.seq skip argumentStep)) w₀ ps w ∧
      (w = g ++ ')' :: s ∨ w = trim (g ++ ')' :: s)) ∧
      parseArgumentItems R ps = .ok (rs.map fun b => b.2.value) := by
  induction rs generalizing w₀ with
  | nil =>
    have hskip : Reads grammar skip w₀ [] (')' :: s) := skip_before_close hg (.inl rfl) hw₀
    exact ⟨[], w₀, Reads.star_stop (Fails.seq_right hskip (argumentStep_fails s)), hw₀, rfl⟩
  | cons b rs ih =>
    obtain ⟨t, p, w₁, hskip, hread, hw₁, hparse, hrule⟩ :=
      argumentStep_reads (hrs b List.mem_cons_self) rs hg s hw₀
    obtain ⟨ps, w, hstar, hw, hitems⟩ := ih (fun b' hb' => hrs b' (List.mem_cons_of_mem _ hb')) hw₁
    exact ⟨_, w, Reads.star_step (Reads.seq hskip hread) hstar, hw,
      parseArgumentItems_cons hrule hparse hitems⟩

/-- A list of arguments. -/
theorem arguments_read {args : Arguments} (h : ∀ a ∈ args.operands, ArgumentReads R a)
    {g : List Char} (hg : g.all isBlank = true) (s : List Char) :
    ∃ p w, Reads grammar (.call .argumentList) (argumentsText args ++ (g ++ ')' :: s)) [p] w ∧
      (w = g ++ ')' :: s ∨ w = trim (g ++ ')' :: s)) ∧
      parseArguments R p = .ok (args.operands.map Argument.value) := by
  have hfirst : ArgumentReads R args.first := h args.first List.mem_cons_self
  have hrest : ∀ b ∈ args.rest, ArgumentReads R b.2 := fun b hb =>
    h b.2 (List.mem_cons_of_mem _ (List.mem_map_of_mem hb))
  obtain ⟨p, w₀, hread, hw₀, hparse, hrule⟩ :=
    argument_reads hfirst (closed_arguments args.rest hg s)
  have hloop : ∃ t ps w, Reads grammar skip w₀ [] t ∧ Reads grammar (many argumentStep) t ps w ∧
      (w = g ++ ')' :: s ∨ w = trim (g ++ ')' :: s)) ∧
      parseArgumentItems R ps = .ok (args.rest.map fun b => b.2.value) := by
    cases hr : args.rest with
    | nil =>
      rw [hr] at hw₀
      refine ⟨_, [], _, skip_before_close hg (.inl rfl) hw₀,
        Reads.opt_none (Fails.seq_left _ (argumentStep_fails s)), .inr ?_, rfl⟩
      rw [trim_append_of_blank hg]
      exact (trim_of_stops (by simp [isBlank])).symm
    | cons b rs =>
      rw [hr] at hw₀ hrest
      obtain ⟨t, q, w₁, hskip, hstep, hw₁, hparse', hrule'⟩ :=
        argumentStep_reads (hrest b List.mem_cons_self) rs hg s hw₀
      obtain ⟨ps, w, hstar, hw, hitems⟩ :=
        arguments_loop rs (fun b' hb' => hrest b' (List.mem_cons_of_mem _ hb')) hg s hw₁
      exact ⟨t, _, w, hskip, Reads.opt_some (Reads.seq hstep hstar), hw,
        parseArgumentItems_cons hrule' hparse' hitems⟩
  obtain ⟨t, ps, w, hskip, hmany, hw, hitems⟩ := hloop
  have hbody : Reads grammar (ruleBody .argumentList) (argumentsText args ++ (g ++ ')' :: s))
      (p :: ps) w := by
    rw [argumentsText, List.append_assoc]
    exact Reads.seq hread (Reads.seq hskip hmany)
  refine ⟨_, w, Reads.call (r := Rule.argumentList) hbody, hw, ?_⟩
  show parseArgumentItems R (p :: ps) = _
  rw [parseArgumentItems_cons hrule hparse hitems, Chain.operands, List.map_cons, List.map_map]
  rfl

/-! ## Calls -/

/-- No list of arguments starts where the parenthesis closes. -/
theorem argumentList_fails (s : List Char) : Fails grammar (.call .argumentList) (')' :: s) :=
  parse_of_run (n := 40) rfl

/-- A name and a list in parentheses, whose inside is read as `ps`, are a call. -/
theorem functionCall_reads {name : List Char} (hname : isIdentifier name = true) {g : List Char}
    (hg : g.all isBlank = true) {inside t u rest : List Char} {ps : List Node}
    (hcomment : noComment ('(' :: inside) = true) (hskip : Reads grammar skip inside [] t)
    (hargs : Reads grammar (.opt (.call .argumentList)) t ps u)
    (hclose : Reads grammar skip u [] (')' :: rest)) :
    ∃ text, Reads grammar (.call .functionCall) (name ++ (g ++ '(' :: inside))
      [.node .functionCall text (.node .identifier name [] :: ps)] rest := by
  have hbody : Reads grammar (ruleBody .functionCall) (name ++ (g ++ '(' :: inside))
      ([.node .identifier name []] ++ ([] ++ ([] ++ ([] ++ (ps ++ ([] ++ [])))))) rest := by
    refine Reads.seq (identifier_reads hname (name_stops_before hg (by decide) _)) ?_
    refine Reads.seq (skip_before hg (by decide) hcomment (.inl rfl)) ?_
    refine Reads.seq (t := inside) (str_reads (by simp [afterPrefix])) ?_
    exact Reads.seq hskip (Reads.seq hargs (Reads.seq hclose (str_reads (by simp [afterPrefix]))))
  have hcall := Reads.call (r := Rule.functionCall) hbody
  simp only [List.nil_append, List.append_nil, List.singleton_append] at hcall
  exact ⟨_, hcall⟩

/-- A call is read as an operand where its text is read as a call. -/
theorem primaryReads_call {name : List Char} {g inside : List Char} {value : Expression}
    (hname : isIdentifier name = true) (hnot : beginsWith "NOT" name = false)
    (hg : g.all isBlank = true) (hcomment : ∀ rest, noComment ('(' :: (inside ++ rest)) = true)
    (hcall : ∀ rest, ∃ p, Reads grammar (.call .functionCall)
      (name ++ (g ++ '(' :: (inside ++ rest))) [p] rest ∧ p.rule = .functionCall ∧
      parseFunctionCall R p = .ok value) :
    PrimaryReads R (name ++ (g ++ '(' :: inside)) value := by
  -- a call starts like a name, so no literal, parenthesis or sign is read in its place
  obtain ⟨c, t, hname', hc⟩ := identifier_head hname
  have hchar := isNameChar_of_isNameStart hc
  have htext : ∀ rest, name ++ (g ++ '(' :: inside) ++ rest =
      name ++ (g ++ '(' :: (inside ++ rest)) := fun rest => by simp
  refine ⟨⟨c, t ++ (g ++ '(' :: inside), by simp [hname'], by simp [hchar]⟩, fun rest => ?_,
    fun rest _ => ?_, fun rest _ => ?_, fun rest _ => ?_⟩
  · rw [htext, hname']
    exact noComment_of_nameChar hchar _
  · rw [htext]
    exact unaryOp_fails_of_name hname hnot (name_stops_before hg (by decide) _)
  · have htrim : trim (g ++ '(' :: (inside ++ rest)) = '(' :: (inside ++ rest) := by
      rw [trim_append_of_blank hg]
      exact trim_of_stops (by simp [isBlank])
    rw [htext]
    refine unnamed_of_name hname (name_stops_before hg (by decide) _) ?_ ?_
    · rw [htrim]
      simp
    · rw [htrim]
      exact hcomment rest
  · obtain ⟨p, hread, hrule, hparse⟩ := hcall rest
    have hparen : Stops (fun c => c == '(') (name ++ (g ++ '(' :: (inside ++ rest))) := by
      rw [hname']
      have hne := isNameChar_ne hchar (d := '(') (by decide)
      simpa using hne
    have hbody : Reads grammar (ruleBody .primaryExpr) (name ++ (g ++ '(' :: (inside ++ rest))) [p]
        rest :=
      Reads.choice_right (paren_fails hparen) (Reads.choice_left _ hread)
    rw [htext]
    refine ⟨_, rest, Reads.call (r := Rule.primaryExpr) hbody, .inl rfl, rfl, ?_⟩
    show parsePrimaryExprInner R (.node _ _ [p]) = _
    simp only [parsePrimaryExprInner, hrule, hparse]

theorem primaryReads_callEmpty {name : List Char} (hname : isIdentifier name = true)
    (hnot : beginsWith "NOT" name = false) (before inside : Blanks) :
    PrimaryReads R (name ++ (before.1 ++ ('(' :: (inside.1 ++ [')']))))
      (.call (String.ofList name) []) := by
  have hopen : ∀ rest, noComment ('(' :: (inside.1 ++ [')'] ++ rest)) = true := by
    intro rest
    rw [List.append_assoc]
    exact noComment_open inside.2 (by decide) (by decide) rest
  refine primaryReads_call hname hnot before.2 hopen fun rest => ?_
  have htext : inside.1 ++ [')'] ++ rest = inside.1 ++ ')' :: rest := by simp
  have hskip : Reads grammar skip (inside.1 ++ [')'] ++ rest) [] (')' :: rest) := by
    rw [htext]
    exact skip_before_close inside.2 (.inl rfl) (.inl rfl)
  obtain ⟨text, hread⟩ := functionCall_reads hname before.2 (hopen rest) hskip
    (Reads.opt_none (argumentList_fails rest))
    (skip_before_close (g := []) rfl (.inl rfl) (.inl rfl))
  exact ⟨_, hread, rfl, rfl⟩

theorem primaryReads_callArguments {name : List Char} {args : Arguments}
    (hname : isIdentifier name = true) (hnot : beginsWith "NOT" name = false)
    (h : ∀ a ∈ args.operands, ArgumentReads R a) (before first last : Blanks) :
    PrimaryReads R (name ++ (before.1 ++ ('(' :: (first.1 ++ (argumentsText args ++
      (last.1 ++ [')'])))))) (.call (String.ofList name) (args.operands.map Argument.value)) := by
  have hfirst : ArgumentReads R args.first := h args.first List.mem_cons_self
  obtain ⟨⟨d, t, htext, hd⟩, -⟩ := argument_start hfirst
  have hinside : ∀ rest, first.1 ++ (argumentsText args ++ (last.1 ++ [')'])) ++ rest =
      first.1 ++ (args.first.text ++ (argumentsRest args.rest ++ (last.1 ++ ')' :: rest))) :=
    fun rest => by simp [argumentsText]
  have hopen : ∀ rest, noComment ('(' :: (first.1 ++ (argumentsText args ++
      (last.1 ++ [')'])) ++ rest)) = true := by
    intro rest
    rw [hinside, htext]
    exact noComment_open first.2 (start_ne hd (by decide)) (start_ne hd (by decide)) _
  refine primaryReads_call hname hnot before.2 hopen fun rest => ?_
  obtain ⟨p, w, hread, hw, hparse⟩ := arguments_read h last.2 rest
  rw [argumentsText, List.append_assoc] at hread
  have hskip := skip_before_argument hfirst first.2
    (argumentsRest args.rest ++ (last.1 ++ ')' :: rest))
  rw [← hinside] at hskip
  obtain ⟨text, hcall⟩ := functionCall_reads hname before.2 (hopen rest) hskip
    (Reads.opt_some hread) (skip_before_close last.2 (.inl rfl) hw)
  refine ⟨_, hcall, rfl, ?_⟩
  rw [parseFunctionCall, hparse]
  rfl

/-! ## Every chain is grouped -/

/-- Every operand of a program is read. -/
theorem primary_reads {text : List Char} {value : Expression} (h : Primary text value) :
    PrimaryReads R text value := by
  -- on the operand; what is inside its parentheses is a chain of operands that are read
  induction h with
  | «variable» name hname hnot htrue hfalse => exact primaryReads_variable hname hnot htrue hfalse
  | literal text v htext hv => exact primaryReads_literal htext hv
  | paren before after c _ ih =>
    exact primaryReads_paren (fun i hi => operandReads (ih i hi)) before after
  | callEmpty name before inside hname hnot => exact primaryReads_callEmpty hname hnot before inside
  | call name before first last args hname hnot _ ih =>
    exact primaryReads_callArguments hname hnot
      (fun a ha i hi => operandReads (ih a ha i hi)) before first last

/-- A chain is accepted whole, and the tree that is built from it is the one grouped tree over it.
-/
theorem grouped_tree (R : LiteralReaders) {c : OpChain} (h : IsChain c) :
    ∃ t : OpTree Operand OpText,
      (∀ t' : OpTree Operand OpText, t'.Grouped OpText.level ∧ t'.chain = c ↔ t' = t) ∧
      ∃ p, parse grammar (.call .expression) (chainText c) = some (.ok [p] []) ∧
        parseExpression R p = .ok (treeExpr t) := by
  refine ⟨c.group OpText.level, Chain.grouped_iff_group OpText.level c, ?_⟩
  have hoperands : ∀ i ∈ c.operands, OperandReads R i :=
    fun i hi => operandReads (primary_reads (h i hi))
  obtain ⟨p, w, hread, hw, hparse, -⟩ := chain_reads hoperands closed_nil
  have hwhole : w = [] := by
    rcases hw with rfl | rfl <;> rfl
  rw [List.append_nil, hwhole] at hread
  exact ⟨p, hread, hparse⟩

/-- Only the digits of a literal decide about its error. -/
theorem integerValue_error {text : List Char} {e : String} (h : integerValue text = .error e) :
    e = "Invalid integer literal: " ++ String.ofList (text.filter (· ≠ '_')) := by
  unfold integerValue at h
  dsimp only at h
  split at h
  · cases h
  · exact (Except.error.inj h).symm

/-- Every chain is accepted whole, and the tree that is built from it is the one grouped tree over
the chain: in it stronger operators bind tighter and operators of one level group to the left. An
integer literal that denotes no `i64` is accepted as well, but no tree is built from it. -/
theorem chain_grouped (R : LiteralReaders) :
    (∀ c : OpChain, IsChain c → ∃ t : OpTree Operand OpText,
      (∀ t' : OpTree Operand OpText, t'.Grouped OpText.level ∧ t'.chain = c ↔ t' = t) ∧
      ∃ p, parse grammar (.call .expression) (chainText c) = some (.ok [p] []) ∧
        parseExpression R p = .ok (treeExpr t)) ∧
    ∀ text : List Char, IntegerText text → (∀ v, integerValue text ≠ .ok v) →
      ∃ p, parse grammar (.call .expression) text = some (.ok [p] []) ∧
        parseExpression R p = .error
          ("Invalid integer literal: " ++ String.ofList (text.filter (· ≠ '_'))) := by
  refine ⟨fun c h => grouped_tree R h, ?_⟩
  intro text htext hno
  obtain ⟨p, hread, hparse⟩ := expression_reads_integer htext
  refine ⟨p, hread, ?_⟩
  cases hvalue : integerValue text with
  | ok v => exact absurd hvalue (hno v)
  | error e =>
    rw [hparse, hvalue, ← integerValue_error hvalue]
    rfl

/-- Readers for texts without real numbers and durations. -/
def noReaders : LiteralReaders :=
  ⟨fun _ => none, fun _ => .error "Invalid time literal prefix"⟩

/-- A blank on each side of a symbol. -/
def symbolText (op : BinaryOp) (word : List Char) (h : Spells op word) : OpText :=
  ⟨op, ⟨[' '], by decide⟩, word, ⟨[' '], by decide⟩, h⟩

/-- The chain `a + b * 2`. -/
def sumOfProduct : OpChain :=
  ⟨⟨none, ['a'], .variable "a"⟩,
    [(symbolText .add ['+'] rfl, ⟨none, ['b'], .variable "b"⟩),
      (symbolText .mul ['*'] rfl, ⟨none, ['2'], .literal (.integer 2)⟩)]⟩

theorem chain_grouped_sum : ∃ p,
    parse grammar (.call .expression) "a + b * 2".toList = some (.ok [p] []) ∧
    parseExpression noReaders p = .ok (.binary (.variable "a") .add
      (.binary (.variable "b") .mul (.literal (.integer 2)))) := by
  have hchain : IsChain sumOfProduct := by
    intro i hi
    simp only [Chain.operands, sumOfProduct, List.map_cons, List.map_nil, List.mem_cons,
      List.not_mem_nil, or_false] at hi
    rcases hi with rfl | rfl | rfl
    · exact .variable ['a'] (by decide) (by decide) (by decide) (by decide)
    · exact .variable ['b'] (by decide) (by decide) (by decide) (by decide)
    · exact .literal ['2'] 2 (.decimal '2' [] (by decide) (by decide)) rfl
  obtain ⟨t, ht, p, hread, hparse⟩ := (chain_grouped noReaders).1 sumOfProduct hchain
  have htree : sumOfProduct.group OpText.level = t :=
    (ht _).1 ⟨sumOfProduct.group_grouped _, sumOfProduct.group_chain _⟩
  rw [← htree] at hparse
  exact ⟨p, hread, hparse⟩

/-- A literal above the largest `i64` is accepted by the grammar, but no expression is built. -/
theorem literal_not_built : IntegerText "9223372036854775808".toList ∧
    ∃ p, parse grammar (.call .expression) "9223372036854775808".toList = some (.ok [p] []) ∧
      ∀ R, parseExpression R p =
        .error "Invalid integer literal: 9223372036854775808" := by
  refine ⟨.decimal '9' "223372036854775808".toList (by decide) (by decide), ?_⟩
  exact ⟨_, parse_of_run (n := 60) rfl, fun R => rfl⟩

end VirtualPlc.Compiler

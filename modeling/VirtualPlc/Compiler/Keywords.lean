import VirtualPlc.Compiler.Grouping

/-!
# Identifiers that begin with a keyword

The grammar tries keywords before identifiers and does not ask where a word ends. An identifier
alone is read as an operand, and with an empty list of arguments and a semicolon as a statement.
Most keywords are harmless there, since the rule that they start fails later on and the identifier
is tried again; the keywords that make a whole operator, literal or statement by themselves cut the
identifier.
-/

set_option autoImplicit false

namespace VirtualPlc.Compiler

open VirtualPlc.Parsing

variable {R : LiteralReaders}

/-! ## Reserved words -/

/-- The reserved words. -/
def keywords : List String :=
  ["PROGRAM", "END_PROGRAM", "FUNCTION", "END_FUNCTION", "FUNCTION_BLOCK", "END_FUNCTION_BLOCK",
    "VAR", "VAR_INPUT", "VAR_OUTPUT", "VAR_IN_OUT", "VAR_EXTERNAL", "VAR_GLOBAL", "VAR_TEMP",
    "END_VAR", "RETAIN", "CONSTANT", "IF", "THEN", "ELSIF", "ELSE", "END_IF", "CASE", "OF",
    "END_CASE", "FOR", "TO", "BY", "DO", "END_FOR", "WHILE", "END_WHILE", "REPEAT", "UNTIL",
    "END_REPEAT", "EXIT", "CONTINUE", "RETURN", "BOOL", "SINT", "INT", "DINT", "LINT", "USINT",
    "UINT", "UDINT", "ULINT", "REAL", "LREAL", "TIME", "DATE", "TIME_OF_DAY", "TOD",
    "DATE_AND_TIME", "DT", "BYTE", "WORD", "DWORD", "LWORD", "STRING", "WSTRING", "ARRAY", "AND",
    "OR", "XOR", "NOT", "MOD", "TRUE", "FALSE"]

/-- The reserved word that a text is, in any case of its letters. -/
def fromKeyword (s : List Char) : Option String :=
  keywords.find? fun w => s.map Char.toUpper == w.toList

/-! ## The text of a call statement -/

/-- A name, an empty list of arguments and a semicolon. -/
def callText (name : List Char) : List Char :=
  name ++ ['(', ')', ';']

theorem suffix_chars {name s : List Char} (hname : isIdentifier name = true)
    (hs : s <:+ callText name) : ∀ c ∈ s, isNameChar c = true ∨ c = '(' ∨ c = ')' ∨ c = ';' := by
  intro c hc
  have hmem := hs.subset hc
  simp only [callText, List.mem_append, List.mem_cons, List.not_mem_nil, or_false] at hmem
  exact hmem.imp_left (List.all_eq_true.1 (isIdentifier_all hname) c)

/-- Neither a slash nor a star comes up in a text without comments. -/
theorem noComment_of_not_mem {s : List Char} (hslash : '/' ∉ s) (hstar : '*' ∉ s) :
    noComment s = true := by
  rw [noComment.eq_def]
  split
  · exact absurd List.mem_cons_self hslash
  · exact absurd (List.mem_cons_of_mem _ List.mem_cons_self) hstar
  · rfl

/-- Nothing is skipped inside the text. -/
theorem skip_suffix {name s : List Char} (hname : isIdentifier name = true)
    (hs : s <:+ callText name) : Reads grammar skip s [] s := by
  have hchars := suffix_chars hname hs
  have habsent : ∀ d : Char, isNameChar d = false → d ≠ '(' → d ≠ ')' → d ≠ ';' → d ∉ s := by
    intro d hd h1 h2 h3 hmem
    rcases hchars d hmem with h | h | h | h
    · rw [h] at hd
      exact absurd hd (by decide)
    · exact h1 h
    · exact h2 h
    · exact h3 h
  have htrim : trim s = s := by
    refine trim_of_stops fun c hc => ?_
    by_contra hblank
    have hb : isBlank c = true := by simpa using hblank
    refine habsent c (not_nameChar_of_blank hb) ?_ ?_ ?_ (List.mem_of_mem_head? hc) <;>
      · rintro rfl
        exact absurd hb (by decide)
  have hcomment : noComment s = true :=
    noComment_of_not_mem (habsent '/' (by decide) (by decide) (by decide) (by decide))
      (habsent '*' (by decide) (by decide) (by decide) (by decide))
  have hread := skip_reads (s := s) (by rw [htrim]; exact hcomment)
  rwa [htrim] at hread

theorem skip_suffix_unique {name s t : List Char} {ps : List Node}
    (hname : isIdentifier name = true) (hs : s <:+ callText name) (h : Reads grammar skip s ps t) :
    t = s :=
  (h.unique (skip_suffix hname hs)).2

/-- A suffix of the text that starts like a name is the text of a call as well. -/
theorem suffix_call {name : List Char} {c : Char} {t : List Char}
    (hname : isIdentifier name = true) (hs : c :: t <:+ callText name)
    (hc : isNameStart c = true) : ∃ w, isIdentifier w = true ∧ c :: t = callText w := by
  obtain ⟨pre, hpre⟩ := hs
  rw [callText] at hpre
  rcases List.append_eq_append_iff.1 hpre with ⟨w, hw, hrest⟩ | ⟨w, hw, hrest⟩
  · -- the suffix starts inside the name
    cases w with
    | nil =>
      rw [List.nil_append] at hrest
      obtain ⟨rfl, -⟩ := List.cons.inj hrest
      exact absurd hc (by decide)
    | cons d w =>
      obtain ⟨rfl, -⟩ := List.cons.inj hrest
      have hall := isIdentifier_all hname
      rw [hw, List.all_append, List.all_cons, Bool.and_eq_true, Bool.and_eq_true] at hall
      exact ⟨c :: w, by simp [isIdentifier, hc, hall.2.2], hrest⟩
  · -- after the name nothing starts like one
    have hmem : c ∈ ['(', ')', ';'] := by
      rw [hrest]
      exact List.mem_append_right _ List.mem_cons_self
    simp only [List.mem_cons, List.not_mem_nil, or_false] at hmem
    rcases hmem with rfl | rfl | rfl <;> exact absurd hc (by decide)

/-! ## Statements -/

/-- The alternatives of a statement. -/
def alternatives : Peg Rule :=
  firstOf [.call .assignmentStmt, .call .ifStmt, .call .caseStmt, .call .forStmt,
    .call .whileStmt, .call .repeatStmt, .call .exitStmt, .call .continueStmt, .call .returnStmt,
    .call .callStmt, .call .emptyStmt]

theorem callStmt_reads {name : List Char} (hname : isIdentifier name = true) :
    ∃ t, Reads grammar (.call .callStmt) (callText name)
      [.node .callStmt t [.node .identifier name []]] [';'] := by
  have hskip : ∀ {s : List Char}, s <:+ callText name → Reads grammar skip s [] s :=
    skip_suffix hname
  have hopen : ['(', ')', ';'] <:+ callText name := List.suffix_append _ _
  have hclose : [')', ';'] <:+ callText name := (List.suffix_cons '(' _).trans hopen
  have hbody : Reads grammar (ruleBody .callStmt) (callText name)
      ([.node .identifier name []] ++ ([] ++ ([] ++ ([] ++ ([] ++ ([] ++ [])))))) [';'] := by
    refine Reads.seq (identifier_reads hname (by simp [isNameChar])) ?_
    refine Reads.seq (hskip hopen) ?_
    refine Reads.seq (t := [')', ';']) (str_reads (by simp [afterPrefix])) ?_
    refine Reads.seq (hskip hclose) (Reads.seq (Reads.opt_none (argumentList_fails [';'])) ?_)
    exact Reads.seq (hskip hclose) (str_reads (by simp [afterPrefix]))
  exact ⟨_, Reads.call (r := Rule.callStmt) hbody⟩

/-- What is skipped may be nothing. -/
theorem not_fails_skip (s : List Char) : ¬ Fails grammar skip s := by
  intro h
  rcases h.seq_inv with hstar | ⟨_, _, -, hstar⟩ <;> exact not_fails_star _ _ hstar

/-- A statement never fails on the text of a call. -/
theorem statement_not_fails {name : List Char} (hname : isIdentifier name = true) :
    ¬ Fails grammar (.call .statement) (callText name) := by
  intro h
  obtain ⟨t, hcall⟩ := callStmt_reads hname
  rcases h.call_inv.seq_inv with halt | ⟨ps, u, -, hend⟩
  · -- the call is among the alternatives
    exact hcall.not_fails
      (halt.choice_inv.2.choice_inv.2.choice_inv.2.choice_inv.2.choice_inv.2.choice_inv.2
        |>.choice_inv.2.choice_inv.2.choice_inv.2.choice_inv.1)
  · rcases hend.seq_inv with hskip | ⟨qs, v, -, hsemi⟩
    · exact not_fails_skip _ hskip
    · exact not_fails_opt _ _ hsemi

/-- After a list of statements the text does not go on like a name. -/
theorem statementList_stops {name s t : List Char} {ps : List Node}
    (hname : isIdentifier name = true) (hs : s <:+ callText name)
    (h : Reads grammar (.call .statementList) s ps t) : Stops isNameStart t := by
  have ht : t <:+ callText name := (parse_left h).1.trans hs
  have hstop : Fails grammar (.call .statement) t := by
    obtain ⟨qs, hbody, -⟩ := h.call_inv
    rcases hbody.choice_inv with hread | ⟨hfail, hempty⟩
    · obtain ⟨_, u, _, -, hstar, -⟩ := hread.seq_inv
      rcases hstar.star_ends.seq_inv with hskip | ⟨_, v, hskip, hfail⟩
      · exact absurd hskip (skip_suffix hname ht).not_fails
      · rwa [skip_suffix_unique hname ht hskip] at hfail
    · have hsame := (hempty.unique (Reads.empty s)).2
      rw [hsame]
      rcases hfail.seq_inv with hfail | ⟨_, _, -, hstar⟩
      · exact hfail
      · exact absurd hstar (not_fails_star _ _)
  cases t with
  | nil => exact stops_nil _
  | cons c t =>
    rw [stops_cons]
    by_contra hc
    obtain ⟨w, hw, htext⟩ := suffix_call hname ht (by simpa using hc)
    rw [htext] at hstop
    exact statement_not_fails hw hstop

/-- A keyword does not come where nothing starts like a name. -/
theorem word_fails_of_stops {w : String} {d : Char} (hw : w.toList.head? = some d)
    (hd : isNameChar d = true) (hdigit : d.toLower.isDigit = false) {s : List Char}
    (hs : Stops isNameStart s) : Fails grammar (word w) s := by
  apply word_fails
  cases s with
  | nil =>
    obtain ⟨ds, hds⟩ := List.head?_eq_some_iff.1 hw
    simp [beginsWith, hds, afterPrefix]
  | cons c s =>
    cases hc : c.isDigit with
    | true => exact beginsWith_of_digit hw hdigit hc s
    | false =>
      refine beginsWith_of_head hw (fun hsame => ?_) s
      have hchar : isNameChar c = true := by
        rw [← isNameChar_toLower, ← hsame, isNameChar_toLower, hd]
      have hstart : isNameStart c = false := (stops_cons _ _ _).1 hs
      simp only [isNameChar, Char.isAlphanum, hc, Bool.or_false] at hchar
      rw [isNameStart, hchar] at hstart
      exact absurd hstart (by decide)

/-- No part of the text contains a colon. -/
theorem colon_fails {name s : List Char} (hname : isIdentifier name = true)
    (hs : s <:+ callText name) {w : String} (hw : w.toList.head? = some ':') :
    Fails grammar (str w) s := by
  refine str_fails_of_head hw fun c hc => ?_
  rcases suffix_chars hname hs c (List.mem_of_mem_head? hc) with h | rfl | rfl | rfl
  · have hne := isNameChar_ne h (d := ':') (by decide)
    simpa using hne
  all_goals decide

theorem assignmentStmt_fails {name : List Char} (hname : isIdentifier name = true) :
    Fails grammar (.call .assignmentStmt) (callText name) := by
  refine Fails.call (Fails.after (by decide) fun _ s hs _ => ?_)
  refine Fails.after (by decide) fun _ t ht _ => ?_
  exact Fails.seq_left _ (colon_fails hname (ht.trans hs) (by simp))

theorem caseBranch_fails {name s : List Char} (hname : isIdentifier name = true)
    (hs : s <:+ callText name) : Fails grammar (.call .caseBranch) s := by
  refine Fails.call (Fails.after (by decide) fun _ t ht _ => ?_)
  refine Fails.after (by decide) fun _ u hu _ => ?_
  exact Fails.seq_left _ (colon_fails hname ((hu.trans ht).trans hs) (by simp))

theorem caseStmt_fails {name : List Char} (hname : isIdentifier name = true) :
    Fails grammar (.call .caseStmt) (callText name) := by
  refine Fails.call (Fails.after (by decide) fun _ s₁ h₁ _ => ?_)
  refine Fails.after (by decide) fun _ s₂ h₂ _ => Fails.after (by decide) fun _ s₃ h₃ _ => ?_
  refine Fails.after (by decide) fun _ s₄ h₄ _ => Fails.after (by decide) fun _ s₅ h₅ _ => ?_
  refine Fails.after (by decide) fun _ s₆ h₆ _ => Fails.seq_left _ (caseBranch_fails hname ?_)
  exact ((((h₆.trans h₅).trans h₄).trans h₃).trans h₂).trans h₁

theorem forStmt_fails {name : List Char} (hname : isIdentifier name = true) :
    Fails grammar (.call .forStmt) (callText name) := by
  refine Fails.call (Fails.after (by decide) fun _ s₁ h₁ _ => ?_)
  refine Fails.after (by decide) fun _ s₂ h₂ _ => Fails.after (by decide) fun _ s₃ h₃ _ => ?_
  refine Fails.after (by decide) fun _ s₄ h₄ _ => Fails.seq_left _ (colon_fails hname ?_ (by simp))
  exact ((h₄.trans h₃).trans h₂).trans h₁

/-- After a list of statements no keyword comes. -/
theorem word_fails_after_list {name s t : List Char} {ps : List Node}
    (hname : isIdentifier name = true) (hs : s <:+ callText name)
    (h : Reads grammar (.call .statementList) s ps t) {w : String} {d : Char}
    (hw : w.toList.head? = some d) (hd : isNameChar d = true) (hdigit : d.toLower.isDigit = false) :
    Reads grammar skip t [] t ∧ Fails grammar (word w) t :=
  ⟨skip_suffix hname ((parse_left h).1.trans hs),
    word_fails_of_stops hw hd hdigit (statementList_stops hname hs h)⟩

theorem whileStmt_fails {name : List Char} (hname : isIdentifier name = true) :
    Fails grammar (.call .whileStmt) (callText name) := by
  refine Fails.call (Fails.after (by decide) fun _ s₁ h₁ _ => ?_)
  refine Fails.after (by decide) fun _ s₂ h₂ _ => Fails.after (by decide) fun _ s₃ h₃ _ => ?_
  refine Fails.after (by decide) fun _ s₄ h₄ _ => Fails.after (by decide) fun _ s₅ h₅ _ => ?_
  refine Fails.after (by decide) fun _ s₆ h₆ _ => Fails.after (by decide) fun _ s₇ _ hlist => ?_
  have hs : s₆ <:+ callText name := ((((h₆.trans h₅).trans h₄).trans h₃).trans h₂).trans h₁
  obtain ⟨hskip, hword⟩ :=
    word_fails_after_list hname hs hlist (w := "END_WHILE") (d := 'E') (by simp) (by decide)
      (by decide)
  exact Fails.seq_right hskip hword

theorem repeatStmt_fails {name : List Char} (hname : isIdentifier name = true) :
    Fails grammar (.call .repeatStmt) (callText name) := by
  refine Fails.call (Fails.after (by decide) fun _ s₁ h₁ _ => ?_)
  refine Fails.after (by decide) fun _ s₂ h₂ _ => Fails.after (by decide) fun _ s₃ _ hlist => ?_
  obtain ⟨hskip, hword⟩ :=
    word_fails_after_list hname (h₂.trans h₁) hlist (w := "UNTIL") (d := 'U') (by simp) (by decide)
      (by decide)
  exact Fails.seq_right hskip (Fails.seq_left _ hword)

theorem ifStmt_fails {name : List Char} (hname : isIdentifier name = true) :
    Fails grammar (.call .ifStmt) (callText name) := by
  refine Fails.call (Fails.after (by decide) fun _ s₁ h₁ _ => ?_)
  refine Fails.after (by decide) fun _ s₂ h₂ _ => Fails.after (by decide) fun _ s₃ h₃ _ => ?_
  refine Fails.after (by decide) fun _ s₄ h₄ _ => Fails.after (by decide) fun _ s₅ h₅ _ => ?_
  refine Fails.after (by decide) fun _ s₆ h₆ _ => Fails.after (by decide) fun _ s₇ _ hlist => ?_
  have hs : s₆ <:+ callText name := ((((h₆.trans h₅).trans h₄).trans h₃).trans h₂).trans h₁
  -- neither a branch nor the end of the statement comes after the list
  have hnone := fun {w : String} {d : Char} (hw : w.toList.head? = some d) hd hdigit =>
    word_fails_after_list hname hs hlist hw hd hdigit
  obtain ⟨hskip, helsif⟩ := hnone (w := "ELSIF") (d := 'E') (by simp) (by decide) (by decide)
  obtain ⟨-, helse⟩ := hnone (w := "ELSE") (d := 'E') (by simp) (by decide) (by decide)
  obtain ⟨-, hend⟩ := hnone (w := "END_IF") (d := 'E') (by simp) (by decide) (by decide)
  have hbranches : Reads grammar (many (.call .elsifBranch)) s₇ [] s₇ :=
    Reads.opt_none (Fails.seq_left _ (Fails.call (Fails.seq_left _ helsif)))
  have hlast : Reads grammar (.opt (.call .elseBranch)) s₇ [] s₇ :=
    Reads.opt_none (Fails.call (Fails.seq_left _ helse))
  exact Fails.seq_right hskip (Fails.seq_right hbranches (Fails.seq_right hskip
    (Fails.seq_right hlast (Fails.seq_right hskip hend))))

/-- The statements that a single keyword makes, and the call. -/
def simpleStatements : Peg Rule :=
  firstOf [.call .exitStmt, .call .continueStmt, .call .returnStmt, .call .callStmt,
    .call .emptyStmt]

/-- The compound statements and the assignment are tried and given up. -/
theorem alternatives_read {name t : List Char} {ps : List Node} (hname : isIdentifier name = true)
    (h : Reads grammar simpleStatements (callText name) ps t) :
    Reads grammar alternatives (callText name) ps t :=
  Reads.choice_right (assignmentStmt_fails hname) (Reads.choice_right (ifStmt_fails hname)
    (Reads.choice_right (caseStmt_fails hname) (Reads.choice_right (forStmt_fails hname)
      (Reads.choice_right (whileStmt_fails hname)
        (Reads.choice_right (repeatStmt_fails hname) h)))))

/-- A name begins with the same keywords whatever ends it. -/
theorem beginsWith_callText {w : String} (hw : w.toList.all isNameChar = true) (name : List Char) :
    beginsWith w (callText name) = beginsWith w name :=
  beginsWith_append hw (by simp [isNameChar]) name

/-- Whether the name begins with a keyword that is a statement by itself. -/
def beginsStatement (name : List Char) : Bool :=
  beginsWith "EXIT" name || beginsWith "CONTINUE" name || beginsWith "RETURN" name

/-- Otherwise the whole text is one call. -/
theorem statement_reads_call {name : List Char} (hname : isIdentifier name = true)
    (h : beginsStatement name = false) :
    ∃ t u, Reads grammar (.call .statement) (callText name)
      [.node .statement u [.node .callStmt t [.node .identifier name []]]] [] := by
  simp only [beginsStatement, Bool.or_eq_false_iff] at h
  have hword : ∀ {w : String}, w.toList.all isNameChar = true → beginsWith w name = false →
      Fails grammar (word w) (callText name) := by
    intro w hw hbegins
    exact word_fails (by rw [beginsWith_callText hw, hbegins])
  obtain ⟨t, hcall⟩ := callStmt_reads hname
  have halt : Reads grammar alternatives (callText name)
      [.node .callStmt t [.node .identifier name []]] [';'] :=
    alternatives_read hname (Reads.choice_right (Fails.call (hword (by decide) h.1.1))
      (Reads.choice_right (Fails.call (hword (by decide) h.1.2))
        (Reads.choice_right (Fails.call (Fails.seq_left _ (hword (by decide) h.2)))
          (Reads.choice_left _ hcall))))
  have hsemi : Reads grammar (.opt (str ";")) [';'] [] [] :=
    Reads.opt_some (str_reads (by simp [afterPrefix]))
  have hskip : Reads grammar skip [';'] [] [';'] :=
    skip_suffix hname (List.suffix_append (name ++ ['(', ')']) [';'] |>.trans (by simp [callText]))
  exact ⟨t, _, Reads.call (r := Rule.statement) (Reads.seq halt (Reads.seq hskip hsemi))⟩

/-- The rules of the statements that a single keyword makes. -/
def isKeywordStmt (r : Rule) : Bool :=
  r == .exitStmt || r == .continueStmt || r == .returnStmt

theorem word_reads_callText {w : String} (hw : w.toList.all isNameChar = true) {name : List Char}
    (h : beginsWith w name = true) : ∃ t, Reads grammar (word w) (callText name) [] t := by
  obtain ⟨_, t, -, -, hread⟩ := beginsWith_reads (w := w) (s := callText name)
    (by rw [beginsWith_callText hw, h])
  exact ⟨t, hread⟩

/-- A keyword that is a statement by itself is read as one. -/
theorem alternatives_read_keyword {name : List Char} (hname : isIdentifier name = true)
    (h : beginsStatement name = true) :
    ∃ q t, Reads grammar alternatives (callText name) [q] t ∧ isKeywordStmt q.rule = true := by
  have hfails : ∀ {w : String}, w.toList.all isNameChar = true → ¬ beginsWith w name = true →
      Fails grammar (word w) (callText name) := by
    intro w hw hbegins
    exact word_fails (by rw [beginsWith_callText hw]; simpa using hbegins)
  by_cases hexit : beginsWith "EXIT" name = true
  · obtain ⟨t, hword⟩ := word_reads_callText (by decide) hexit
    exact ⟨_, t, alternatives_read hname
      (Reads.choice_left _ (Reads.call (r := Rule.exitStmt) hword)), rfl⟩
  have hnoexit := Fails.call (r := Rule.exitStmt) (hfails (by decide) hexit)
  by_cases hcontinue : beginsWith "CONTINUE" name = true
  · obtain ⟨t, hword⟩ := word_reads_callText (by decide) hcontinue
    exact ⟨_, t, alternatives_read hname (Reads.choice_right hnoexit
      (Reads.choice_left _ (Reads.call (r := Rule.continueStmt) hword))), rfl⟩
  have hnocontinue := Fails.call (r := Rule.continueStmt) (hfails (by decide) hcontinue)
  have hreturn : beginsWith "RETURN" name = true := by
    simp only [beginsStatement, Bool.or_eq_true] at h
    tauto
  obtain ⟨t, hword⟩ := word_reads_callText (by decide) hreturn
  -- whatever expression comes after it, a RETURN is read
  have hread : ∃ ps u, Reads grammar (.call .returnStmt) (callText name) ps u := by
    rcases reads_or_fails grammar (.call .returnStmt) (callText name) (by decide) with hread | hfail
    · exact hread
    · rcases hfail.call_inv.seq_inv with hfail | ⟨_, _, -, hend⟩
      · exact absurd hfail hword.not_fails
      · rcases hend.seq_inv with hskip | ⟨_, _, -, hopt⟩
        · exact absurd hskip (not_fails_skip _)
        · exact absurd hopt (not_fails_opt _ _)
  obtain ⟨ps, u, hread⟩ := hread
  obtain ⟨qs, -, hnode⟩ := hread.call_inv
  rw [hnode] at hread
  exact ⟨_, u, alternatives_read hname (Reads.choice_right hnoexit
    (Reads.choice_right hnocontinue (Reads.choice_left _ hread))), rfl⟩

/-- A statement made by a keyword is no call. -/
theorem parseStatement_keyword {q : Node} (hq : isKeywordStmt q.rule = true) {r : Rule}
    {t : List Char} {qs : List Node} {stmt : Option Statement}
    (h : parseStatement R (.node r t (q :: qs)) = .ok stmt) :
    ∃ s, stmt = some s ∧ ∀ n args, s ≠ .callStmt n args := by
  simp only [isKeywordStmt, Bool.or_eq_true, beq_iff_eq] at hq
  rcases hq with (hq | hq) | hq
  · simp only [parseStatement, hq, Except.ok.injEq] at h
    exact ⟨_, h.symm, by simp⟩
  · simp only [parseStatement, hq, Except.ok.injEq] at h
    exact ⟨_, h.symm, by simp⟩
  · simp only [parseStatement, hq, parseReturn] at h
    cases hinner : q.inner with
    | nil =>
      rw [hinner] at h
      exact ⟨.returnStmt none, (Except.ok.inj h).symm, by simp⟩
    | cons e es =>
      rw [hinner] at h
      cases he : parseExpression R e with
      | error m => simp [he] at h
      | ok v =>
        simp only [he] at h
        exact ⟨.returnStmt (some v), (Except.ok.inj h).symm, by simp⟩

/-- The list of statements is the one call. -/
theorem statementList_call (R : LiteralReaders) {name : List Char}
    (hname : isIdentifier name = true) (h : beginsStatement name = false) :
    ∃ p, Reads grammar (.call .statementList) (callText name) [p] [] ∧
      parseStatementList R p = .ok [.callStmt (String.ofList name) []] := by
  obtain ⟨t, u, hstmt⟩ := statement_reads_call hname h
  have hend : Fails grammar (.seq skip (.call .statement)) [] := parse_of_run (n := 40) rfl
  have hbody : Reads grammar (ruleBody .statementList) (callText name)
      [.node .statement u [.node .callStmt t [.node .identifier name []]]] [] :=
    Reads.opt_some (Reads.seq hstmt (Reads.star_stop hend))
  exact ⟨_, Reads.call (r := Rule.statementList) hbody, rfl⟩

/-- A keyword that is a statement by itself is not part of a call. -/
theorem statementList_cut {name : List Char} (hname : isIdentifier name = true)
    (h : beginsStatement name = true) {p : Node} {t : List Char}
    (hread : Reads grammar (.call .statementList) (callText name) [p] t) (n : String)
    (args : List (Option String × Expression)) :
    parseStatementList R p ≠ .ok [.callStmt n args] := by
  intro hparse
  obtain ⟨q, s, halt, hq⟩ := alternatives_read_keyword hname h
  obtain ⟨ps, hbody, hnode⟩ := hread.call_inv
  obtain rfl : p = .node .statementList _ ps := (List.cons.inj hnode).1
  have hstatements : parseStatements R ps = .ok [.callStmt n args] := hparse
  rcases hbody.choice_inv with hseq | ⟨-, hempty⟩
  · -- the first statement is the keyword
    obtain ⟨qs, u, rs, hstmt, -, rfl⟩ := hseq.seq_inv
    obtain ⟨inner, hinner, rfl⟩ := hstmt.call_inv
    obtain ⟨qs', v, rs', hfirst, -, rfl⟩ := hinner.seq_inv
    obtain ⟨rfl, -⟩ := hfirst.unique halt
    simp only [Shape.wrap, grammar, ruleShape, List.singleton_append] at hstatements
    rw [parseStatements, if_pos (Pair.rule_node _ _ _)] at hstatements
    cases hfirst : parseStatement R (.node .statement _ (q :: rs')) with
    | error m =>
      rw [hfirst] at hstatements
      cases hstatements
    | ok stmt =>
      obtain ⟨s, rfl, hs⟩ := parseStatement_keyword hq hfirst
      rw [hfirst] at hstatements
      cases hrest : parseStatements R rs with
      | error m =>
        rw [hrest] at hstatements
        cases hstatements
      | ok rest =>
        rw [hrest] at hstatements
        exact hs n args (List.cons.inj (Except.ok.inj hstatements)).1
  · obtain ⟨rfl, -⟩ := hempty.unique (Reads.empty _)
    simp [parseStatements] at hstatements

/-! ## Operands -/

/-- Whether the name begins with a keyword that is an operator or a literal by itself. -/
def beginsOperand (name : List Char) : Bool :=
  beginsWith "NOT" name || beginsWith "TRUE" name || beginsWith "FALSE" name

/-- Otherwise the whole name is one reference. -/
theorem operand_reference (R : LiteralReaders) {name : List Char} (hname : isIdentifier name = true)
    (h : beginsOperand name = false) :
    ∃ p, Reads grammar (.call .expression) name [p] [] ∧
      parseExpression R p = .ok (.variable (String.ofList name)) := by
  simp only [beginsOperand, Bool.or_eq_false_iff] at h
  have hoperand : OperandReads R ⟨none, name, .variable (String.ofList name)⟩ :=
    operandReads (primaryReads_variable hname h.1.1 h.1.2 h.2)
  have hoperands : ∀ i ∈ Chain.operands (α := Operand) (ω := OpText)
      ⟨⟨none, name, .variable (String.ofList name)⟩, []⟩, OperandReads R i := by
    intro i hi
    rw [List.mem_singleton.1 hi]
    exact hoperand
  obtain ⟨p, w, hread, hw, hparse, -⟩ := chain_reads hoperands closed_nil
  have hwhole : w = [] := by
    rcases hw with rfl | rfl <;> rfl
  have htext : chainText ⟨⟨none, name, .variable (String.ofList name)⟩, []⟩ ++ [] = name := by
    simp [chainText, restText, Operand.text]
  rw [htext, hwhole] at hread
  exact ⟨p, hread, hparse⟩

theorem parsePowerRest_variable {left : Expression} {ps : List Node} {x : String}
    (h : parsePowerRest R left ps = .ok (.variable x)) : left = .variable x := by
  induction ps generalizing left with
  | nil => simpa [parsePowerRest] using h
  | cons p ps ih =>
    rw [parsePowerRest] at h
    obtain ⟨right, -, h⟩ := parsed_bind_ok h
    exact absurd (ih h) (by simp)

theorem parseOrRest_variable {left : Expression} {ps : List Node} {x : String}
    (h : parseOrRest R left ps = .ok (.variable x)) : left = .variable x := by
  -- on the number of nodes, of which a step takes one or two
  induction hn : ps.length using Nat.strong_induction_on generalizing left ps with
  | _ n ih =>
    subst hn
    match ps, h, ih with
    | [], h, _ => simpa [parseOrRest] using h
    | [opPair], h, _ =>
      rw [parseOrRest] at h
      split at h
      · cases h
      · obtain ⟨right, -, h⟩ := parsed_bind_ok h
        cases h
    | opPair :: rightPair :: inner, h, ih =>
      rw [parseOrRest] at h
      split at h
      · obtain ⟨right, -, h⟩ := parsed_bind_ok h
        exact absurd (ih inner.length (by simp only [List.length_cons]; omega) h rfl) (by simp)
      · obtain ⟨right, -, h⟩ := parsed_bind_ok h
        exact absurd (ih (rightPair :: inner).length (by simp) h rfl) (by simp)

theorem parseLevelRest_variable {l : OperatorLevel} {left : Expression} {ps : List Node}
    {x : String} (h : parseLevelRest R l left ps = .ok (.variable x)) : left = .variable x := by
  induction hn : ps.length using Nat.strong_induction_on generalizing left ps with
  | _ n ih =>
    subst hn
    match ps, h, ih with
    | [], h, _ => simpa [parseLevelRest] using h
    | [opPair], h, _ =>
      rw [parseLevelRest] at h
      split at h
      · obtain ⟨op, -, h⟩ := parsed_bind_ok h
        cases h
      · simpa using h
    | opPair :: rightPair :: inner, h, ih =>
      rw [parseLevelRest] at h
      split at h
      · obtain ⟨op, -, h⟩ := parsed_bind_ok h
        cases hoperand : l.operand with
        | none =>
          simp only [hoperand] at h
          obtain ⟨right, -, h⟩ := parsed_bind_ok h
          exact absurd (ih inner.length (by simp only [List.length_cons]; omega) h rfl) (by simp)
        | some tighter =>
          simp only [hoperand] at h
          obtain ⟨right, -, h⟩ := parsed_bind_ok h
          exact absurd (ih inner.length (by simp only [List.length_cons]; omega) h rfl) (by simp)
      · exact ih (rightPair :: inner).length (by simp) h rfl

/-- A level whose loop takes an operator builds no reference. -/
theorem loopAt_variable {k : Nat} (hk : k < 7) {left : Expression} {ps : List Node} {x : String}
    (h : loopAt R k left ps = .ok (.variable x)) : left = .variable x := by
  interval_cases k
  · exact parseOrRest_variable h
  · exact parseLevelRest_variable h
  · exact parseLevelRest_variable h
  · exact parseLevelRest_variable h
  · exact parseLevelRest_variable h
  · exact parseLevelRest_variable h
  · exact parsePowerRest_variable h

/-- What a level reads from the text is no reference. -/
def NoReference (R : LiteralReaders) (k : Nat) (s : List Char) : Prop :=
  ∀ p t x, Reads grammar (.call (levelRule k)) s [p] t → parseAt R k p ≠ .ok (.variable x)

theorem visible_node {r : Rule} (hr : ruleShape r = .visible) {s t : List Char} {p : Node}
    (h : Reads grammar (.call r) s [p] t) :
    ∃ ps, Reads grammar (ruleBody r) s ps t ∧ p = .node r (consumed s t) ps := by
  obtain ⟨ps, hbody, hnode⟩ := h.call_inv
  rw [show grammar.shape r = .visible from hr] at hnode
  exact ⟨ps, hbody, (List.cons.inj hnode).1⟩

theorem noReference_below {k : Nat} (hk : k < 7) {s : List Char} (h : NoReference R (k + 1) s) :
    NoReference R k s := by
  intro p t x hread hparse
  obtain ⟨ps, hbody, rfl⟩ := visible_node (levelRule_shape k) hread
  rw [levelRule_body hk] at hbody
  obtain ⟨qs, u, rs, hfirst, -, rfl⟩ := hbody.seq_inv
  obtain ⟨qs', hinner, hnode⟩ := hfirst.call_inv
  rw [show grammar.shape (levelRule (k + 1)) = .visible from levelRule_shape (k + 1)] at hnode
  obtain rfl : qs = [_] := hnode
  rw [List.singleton_append, parseAt_node hk] at hparse
  cases hleft : parseAt R (k + 1) (.node (levelRule (k + 1)) (consumed s u) qs') with
  | error m =>
    rw [hleft] at hparse
    cases hparse
  | ok left =>
    rw [hleft] at hparse
    have hvar : left = .variable x := loopAt_variable hk hparse
    rw [hvar] at hleft
    exact h _ _ x hfirst hleft

/-- A unary expression whose first node is an operator is no reference. -/
theorem parseUnaryExpr_operator {r : Rule} {t : List Char} {q : Node} (hq : q.rule = .unaryOp)
    (qs : List Node) (x : String) : parseUnaryExpr R (.node r t (q :: qs)) ≠ .ok (.variable x) := by
  intro h
  cases qs with
  | nil =>
    rw [parseUnaryExpr, if_pos hq] at h
    obtain ⟨op, -, h⟩ := parsed_bind_ok h
    cases h
  | cons primary qs =>
    rw [parseUnaryExpr, if_pos hq] at h
    obtain ⟨op, -, h⟩ := parsed_bind_ok h
    obtain ⟨operand, -, h⟩ := parsed_bind_ok h
    cases h

/-- A name that begins with `NOT` is read as the operator. -/
theorem noReference_not {name : List Char} (hname : isIdentifier name = true)
    (h : beginsWith "NOT" name = true) : NoReference R 7 name := by
  intro p t x hread
  obtain ⟨ps, hbody, rfl⟩ := visible_node (levelRule_shape 7) hread
  obtain ⟨qs, u, rs, hop, -, rfl⟩ := hbody.seq_inv
  -- the operator is read, whatever operand comes after it
  obtain ⟨c, cs, hhead, hc⟩ := identifier_head hname
  have hminus : Fails grammar (str "-") name := by
    rw [hhead]
    have hne := isNameChar_ne (isNameChar_of_isNameStart hc) (d := '-') (by decide)
    exact str_fails_of_head (d := '-') (by simp) (by simpa using hne)
  obtain ⟨_, rest, -, -, hnot⟩ := beginsWith_reads h
  have hunary := Reads.opt_some (Reads.call (r := Rule.unaryOp) (Reads.choice_right hminus hnot))
  obtain ⟨rfl, -⟩ := hop.unique hunary
  exact parseUnaryExpr_operator rfl _ x

/-- A name that begins with `TRUE` or `FALSE` is read as the literal. -/
theorem noReference_bool {name : List Char} (hname : isIdentifier name = true)
    (hnot : beginsWith "NOT" name = false)
    (h : beginsWith "TRUE" name = true ∨ beginsWith "FALSE" name = true) :
    NoReference R 7 name := by
  obtain ⟨c, cs, hhead, hc⟩ := identifier_head hname
  have hchar := isNameChar_of_isNameStart hc
  have hother : ∀ {d : Char}, isNameChar d = false → Stops (fun c => c == d) name := by
    intro d hd
    rw [hhead]
    have hne := isNameChar_ne hchar hd
    simpa using hne
  -- neither an operator nor a parenthesis nor a call comes first
  have hunsigned : Reads grammar (.opt (.call .unaryOp)) name [] name := by
    have hfails : Fails grammar (.call .unaryOp) (name ++ []) :=
      unaryOp_fails_of_name hname hnot (stops_nil _)
    rw [List.append_nil] at hfails
    exact Reads.opt_none hfails
  have hskip : Reads grammar skip name [] name := by
    have htrim : trim name = name := by
      rw [hhead]
      exact trim_of_stops (stops_blank_of_head (by simp [hchar]) _)
    have hread := skip_reads (s := name)
      (by rw [htrim, hhead]; exact noComment_of_nameChar hchar cs)
    rwa [htrim] at hread
  have hparen := paren_fails (hother (d := '(') (by decide))
  have hcall : Fails grammar (.call .functionCall) name := by
    have hfails : Fails grammar (.call .functionCall) (name ++ []) :=
      functionCall_fails hname (stops_nil _) (stops_nil _) rfl
    rwa [List.append_nil] at hfails
  -- the literal is read, and nothing else of it matters
  obtain ⟨u, w, v, hliteral⟩ := literal_reads_bool (r := []) hname h (stops_nil _)
  rw [List.append_nil] at hliteral
  have hprimary : Reads grammar (ruleBody .primaryExpr) name
      [.node .literal w [.node .boolLiteral v []]] u :=
    Reads.choice_right hparen (Reads.choice_right hcall (Reads.choice_left _ hliteral))
  intro p t x hread
  obtain ⟨ps, hbody, rfl⟩ := visible_node (levelRule_shape 7) hread
  obtain ⟨rfl, -⟩ :=
    hbody.unique (Reads.seq hunsigned
      (Reads.seq hskip (Reads.call (r := Rule.primaryExpr) hprimary)))
  simp [parseAt, parseUnaryExpr, parsePrimaryExprInner, parseLiteral, Shape.wrap, grammar,
    ruleShape]

/-- A name that begins with such a keyword is no reference at any level. -/
theorem operand_cut {name : List Char} (hname : isIdentifier name = true)
    (h : beginsOperand name = true) {p : Node} {t : List Char}
    (hread : Reads grammar (.call .expression) name [p] t) (x : String) :
    parseExpression R p ≠ .ok (.variable x) := by
  have hunary : NoReference R 7 name := by
    by_cases hnot : beginsWith "NOT" name = true
    · exact noReference_not hname hnot
    · simp only [beginsOperand, Bool.or_eq_true] at h
      exact noReference_bool hname (by simpa using hnot) (by tauto)
  -- from the unary expressions to the weakest operator
  have hlevels : ∀ k ≤ 7, NoReference R (7 - k) name := by
    intro k hk
    induction k with
    | zero => exact hunary
    | succ k ih =>
      apply noReference_below (by omega)
      rw [show 7 - (k + 1) + 1 = 7 - k by omega]
      exact ih (by omega)
  have hor := hlevels 7 (by decide)
  obtain ⟨ps, hbody, rfl⟩ := visible_node (r := .expression) rfl hread
  obtain ⟨qs, -, hnode⟩ := Reads.call_inv (r := Rule.orExpr) hbody
  obtain rfl : ps = [_] := hnode
  exact hor _ _ x hbody

/-! ## Which identifiers are kept whole -/

/-- The identifier is read as one reference and, with an empty list of arguments, as one call. -/
def KeptWhole (R : LiteralReaders) (name : List Char) : Prop :=
  (∃ p, parse grammar (.call .expression) name = some (.ok [p] []) ∧
    parseExpression R p = .ok (.variable (String.ofList name))) ∧
  ∃ p, parse grammar (.call .statementList) (callText name) = some (.ok [p] []) ∧
    parseStatementList R p = .ok [.callStmt (String.ofList name) []]

/-- An identifier is kept whole when it begins with none of the keywords that make an operator, a
literal or a statement by themselves, and only then. -/
theorem keptWhole_iff (R : LiteralReaders) (name : List Char) (hname : isIdentifier name = true) :
    KeptWhole R name ↔ beginsOperand name = false ∧ beginsStatement name = false := by
  constructor
  · rintro ⟨⟨p, hread, hparse⟩, q, hreadList, hparseList⟩
    refine ⟨?_, ?_⟩
    · by_contra hbegins
      exact operand_cut hname (by simpa using hbegins) hread _ hparse
    · by_contra hbegins
      exact statementList_cut hname (by simpa using hbegins) hreadList _ _ hparseList
  · rintro ⟨hoperand, hstatement⟩
    exact ⟨operand_reference R hname hoperand, statementList_call R hname hstatement⟩

theorem keptWhole_motor :
    fromKeyword "IFMotor".toList = none ∧ KeptWhole noReaders "IFMotor".toList :=
  ⟨by decide, (keptWhole_iff noReaders "IFMotor".toList (by decide)).2 ⟨by decide, by decide⟩⟩

/-- The identifiers `NOTE` and `EXITCODE` are no reserved words; the first is read as the negation
of `E`, and the call of the second is no single call. -/
theorem note_cut : fromKeyword "NOTE".toList = none ∧ isIdentifier "NOTE".toList = true ∧
    (∃ p, parse grammar (.call .expression) "NOTE".toList = some (.ok [p] []) ∧
      parseExpression noReaders p = .ok (.unary .not (.variable "E"))) ∧
    ¬ KeptWhole noReaders "NOTE".toList ∧
    fromKeyword "EXITCODE".toList = none ∧ isIdentifier "EXITCODE".toList = true ∧
    ¬ KeptWhole noReaders "EXITCODE".toList := by
  refine ⟨by decide, by decide, ⟨_, parse_of_run (n := 60) rfl, rfl⟩, ?_, by decide, by decide, ?_⟩
  · rintro ⟨⟨p, hread, hparse⟩, -⟩
    exact operand_cut (by decide) (by decide) hread _ hparse
  · rintro ⟨-, p, hread, hparse⟩
    exact statementList_cut (by decide) (by decide) hread _ _ hparse

end VirtualPlc.Compiler

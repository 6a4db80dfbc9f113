import VirtualPlc.Compiler.Keywords

/-!
# Data types are printed and read

The printed text of a data type is given to the rule for data types and the function over its parse
tree. The alternatives of the rule are an array, a string type, an elementary type and a name, in
this order, and a keyword does not ask where the word ends. So a type is lost when its text begins
with a keyword that was not printed as one, or when a later alternative of the elementary types
would have read it whole. Decimal numbers are read back up to the range of an `i64` literal.
-/

set_option autoImplicit false

namespace VirtualPlc.Compiler

open VirtualPlc.Parsing

variable {R : LiteralReaders}

/-! ## Decimal numbers -/

theorem toDigits_all (n : Nat) : (Nat.toDigits 10 n).all Char.isDigit = true :=
  List.all_eq_true.2 fun _ hc => Nat.isDigit_of_mem_toDigits (by decide) (by decide) hc

theorem toDigits_cons (n : Nat) :
    ∃ d ds, Nat.toDigits 10 n = d :: ds ∧ d.isDigit = true ∧ ds.all Char.isDigit = true := by
  have hall := toDigits_all n
  cases hdigits : Nat.toDigits 10 n with
  | nil => exact absurd hdigits Nat.toDigits_ne_nil
  | cons d ds =>
    rw [hdigits, List.all_cons, Bool.and_eq_true] at hall
    exact ⟨d, ds, rfl, hall.1, hall.2⟩

theorem integerText_toDigits (n : Nat) : IntegerText (Nat.toDigits 10 n) := by
  obtain ⟨d, ds, hdigits, hd, hds⟩ := toDigits_cons n
  rw [hdigits]
  refine .decimal d ds hd (List.all_eq_true.2 fun c hc => ?_)
  rw [List.all_eq_true.1 hds c hc, Bool.true_or]

theorem digitValue_of_isDigit {c : Char} (h : c.isDigit = true) :
    digitValue c = c.toNat - '0'.toNat ∧ digitValue c < 10 := by
  have hrange := Char.isDigit_iff_toNat.1 h
  have hvalue : digitValue c = c.toNat - '0'.toNat := if_pos h
  refine ⟨hvalue, ?_⟩
  rw [hvalue]
  have hnine : '9'.toNat = 57 := rfl
  have hzero : '0'.toNat = 48 := rfl
  omega

/-- Digits folded with their values. -/
theorem foldl_digitValue (l : List Char) (h : l.all Char.isDigit = true) (init : Nat) :
    l.foldl (fun v c => v * 10 + digitValue c) init = Nat.ofDigitChars 10 l init := by
  induction l generalizing init with
  | nil => simp
  | cons c l ih =>
    rw [List.all_cons, Bool.and_eq_true] at h
    rw [List.foldl_cons, ih h.2, Nat.ofDigitChars_cons, (digitValue_of_isDigit h.1).1, Nat.mul_comm]

/-- The literal of a number is read back when the number fits in an `i64`. -/
theorem integerValue_toDigits (n : Nat) : integerValue (Nat.toDigits 10 n) =
    if n < 2 ^ 63 then .ok (n : Int)
    else .error ("Invalid integer literal: " ++ String.ofList (Nat.toDigits 10 n)) := by
  have hall := toDigits_all n
  have habsent : ∀ d : Char, d.isDigit = false → d ∉ Nat.toDigits 10 n := by
    intro d hd hmem
    rw [List.all_eq_true.1 hall d hmem] at hd
    exact absurd hd (by decide)
  have hplain : (Nat.toDigits 10 n).filter (· ≠ '_') = Nat.toDigits 10 n := by
    rw [List.filter_eq_self]
    rintro c hc
    have hne : c ≠ '_' := by
      rintro rfl
      exact habsent '_' (by decide) hc
    simpa using hne
  -- no prefix of a base, since there is no `#`
  have hbase : ∀ cs : List Char, '#' ∈ cs →
      afterPrefix (· == ·) cs (Nat.toDigits 10 n) = none := by
    intro cs hcs
    cases hprefix : afterPrefix (· == ·) cs (Nat.toDigits 10 n) with
    | none => rfl
    | some rest =>
      refine absurd ?_ (habsent '#' (by decide))
      rw [afterPrefix_exact hprefix]
      exact List.mem_append_left rest hcs
  have hvalid : ¬ ((Nat.toDigits 10 n).isEmpty = true ∨
      ¬ (Nat.toDigits 10 n).all (fun c => digitValue c < 10) = true) := by
    rintro (hempty | hdigit)
    · exact Nat.toDigits_ne_nil (List.isEmpty_iff.1 hempty)
    · refine hdigit (List.all_eq_true.2 fun c hc => ?_)
      exact decide_eq_true (digitValue_of_isDigit (List.all_eq_true.1 hall c hc)).2
  have hradix : i64FromStrRadix 10 (Nat.toDigits 10 n) =
      if n < 2 ^ 63 then some (n : Int) else none := by
    rw [i64FromStrRadix, if_neg hvalid, foldl_digitValue _ hall, Nat.ofDigitChars_ten_toDigits]
  rw [integerValue, hplain]
  simp only [hbase "16#".toList (by simp), hbase "8#".toList (by simp),
    hbase "2#".toList (by simp), hradix]
  by_cases hn : n < 2 ^ 63
  · rw [if_pos hn, if_pos hn]
  · rw [if_neg hn, if_neg hn]

/-! ## Bounds of an array -/

/-- What follows a bound: the dots before the second one, or the bracket. -/
def BoundEnds (rest : List Char) : Prop :=
  (∃ s, rest = '.' :: '.' :: s) ∨ ∃ s, rest = ']' :: s

theorem BoundEnds.number {rest : List Char} (h : BoundEnds rest) : NumberEnds rest := by
  rcases h with ⟨s, rfl⟩ | ⟨s, rfl⟩
  · refine ⟨(stops_cons _ _ _).2 (by decide), fun t ht => ?_⟩
    obtain ⟨-, rfl⟩ := List.cons.inj ht
    exact (stops_cons _ _ _).2 (by decide)
  · refine ⟨(stops_cons _ _ _).2 (by decide), fun t ht => ?_⟩
    exact absurd (List.cons.inj ht).1 (by decide)

theorem BoundEnds.head {rest : List Char} (h : BoundEnds rest) :
    ∃ c s, rest = c :: s ∧ (c = '.' ∨ c = ']') := by
  rcases h with ⟨s, rfl⟩ | ⟨s, rfl⟩
  · exact ⟨'.', _, rfl, .inl rfl⟩
  · exact ⟨']', _, rfl, .inr rfl⟩

theorem BoundEnds.skip {rest : List Char} (h : BoundEnds rest) :
    Reads grammar skip rest [] rest := by
  obtain ⟨c, s, rfl, rfl | rfl⟩ := h.head
  · exact skip_nothing (by decide) (by decide) (by decide) s
  · exact skip_nothing (by decide) (by decide) (by decide) s

theorem BoundEnds.op_fails {rest : List Char} (h : BoundEnds rest) :
    ∀ k < 7, Fails grammar (levelOp k) rest := by
  intro k hk
  obtain ⟨c, s, rfl, hc⟩ := h.head
  refine levelOp_fails hk ((stops_cons _ _ _).2 ?_)
  by_contra hmem
  have hno := heads_satisfy (fun d => !(d == '.' || d == ']')) (by decide) hk (d := c.toLower)
    (by simpa using hmem)
  rcases hc with rfl | rfl <;> exact absurd hno (by decide)

/-- A number after a minus sign. -/
theorem unary_reads_negative (n : Nat) {rest : List Char} (h : NumberEnds rest) :
    ∃ p, Reads grammar (.call .unaryExpr) ('-' :: (Nat.toDigits 10 n ++ rest)) [p] rest ∧
      ∀ R, parseUnaryExpr R p =
        (integerValue (Nat.toDigits 10 n)).map fun v => .unary .neg (.literal (.integer v)) := by
  obtain ⟨p, hprimary, -, hparse⟩ := primary_reads_integer (integerText_toDigits n) h
  obtain ⟨d, ds, hdigits, hd, -⟩ := toDigits_cons n
  have hchar := isNameChar_of_isDigit hd
  have hsign : Reads grammar (.opt (.call .unaryOp)) ('-' :: (Nat.toDigits 10 n ++ rest))
      [.node .unaryOp ['-'] []] (Nat.toDigits 10 n ++ rest) := by
    have hminus : Reads grammar (ruleBody .unaryOp) ('-' :: (Nat.toDigits 10 n ++ rest)) []
        (Nat.toDigits 10 n ++ rest) :=
      Reads.choice_left _ (str_reads (by simp [afterPrefix]))
    have hnode := Reads.call (r := Rule.unaryOp) hminus
    rw [show consumed ('-' :: (Nat.toDigits 10 n ++ rest)) (Nat.toDigits 10 n ++ rest) = ['-'] from
      consumed_append ['-'] _] at hnode
    exact Reads.opt_some hnode
  have hskip : Reads grammar skip (Nat.toDigits 10 n ++ rest) [] (Nat.toDigits 10 n ++ rest) := by
    rw [hdigits]
    exact skip_nothing (digit_not_blank hd) (isNameChar_ne hchar (by decide))
      (isNameChar_ne hchar (by decide)) _
  have hbody : Reads grammar (ruleBody .unaryExpr) ('-' :: (Nat.toDigits 10 n ++ rest))
      [.node .unaryOp ['-'] [], p] rest :=
    Reads.seq hsign (Reads.seq hskip hprimary)
  refine ⟨_, Reads.call (r := Rule.unaryExpr) hbody, fun R => ?_⟩
  show parseUnaryExpr R (.node _ _ [.node .unaryOp ['-'] [], p]) = _
  rw [parseUnaryExpr, if_pos (Pair.rule_node _ _ _), hparse]
  cases integerValue (Nat.toDigits 10 n) <;> rfl

/-- The text of a bound. -/
def boundText (n : Int) : List Char :=
  if 0 ≤ n then Nat.toDigits 10 n.toNat else '-' :: Nat.toDigits 10 (-n).toNat

theorem toList_toString (n : Int) : (toString n).toList = boundText n := by
  rw [Int.toString_eq_repr, Int.repr_eq_if, boundText]
  split
  · exact Nat.toList_repr
  · rw [String.toList_append, Nat.toList_repr]
    rfl

/-- A bound is read as one expression, and its value comes back when its absolute value fits in an
`i64`. -/
theorem bound_reads (n : Int) {r : List Char} (h : BoundEnds r) :
    ∃ p, Reads grammar (.call .expression) (boundText n ++ r) [p] r ∧
      ∀ (R : LiteralReaders) (m : Int),
        parseExpression R p >>= exprToI64 = .ok m ↔ m = n ∧ n.natAbs < 2 ^ 63 := by
  by_cases hsign : 0 ≤ n
  · obtain ⟨p, hread, hparse⟩ := unary_reads_integer (integerText_toDigits n.toNat) h.number
    obtain ⟨q, hwhole, hsame⟩ := single_reads hread h.skip h.op_fails
    refine ⟨q, by rwa [boundText, if_pos hsign], fun R m => ?_⟩
    rw [hsame, hparse, integerValue_toDigits]
    by_cases hfits : n.toNat < 2 ^ 63
    · rw [if_pos hfits]
      have hvalue : (Except.ok (n.toNat : Int) : Parsed Int) = .ok m ↔
          m = n ∧ n.natAbs < 2 ^ 63 := by
        rw [Except.ok.injEq]
        omega
      exact hvalue
    · rw [if_neg hfits]
      have hnone : ¬ (m = n ∧ n.natAbs < 2 ^ 63) := by omega
      exact iff_of_false (by intro hok; cases hok) hnone
  · obtain ⟨p, hread, hparse⟩ := unary_reads_negative (-n).toNat h.number
    obtain ⟨q, hwhole, hsame⟩ := single_reads hread h.skip h.op_fails
    refine ⟨q, by rwa [boundText, if_neg hsign], fun R m => ?_⟩
    rw [hsame, hparse, integerValue_toDigits]
    by_cases hfits : (-n).toNat < 2 ^ 63
    · rw [if_pos hfits]
      have hvalue : (Except.ok (-((-n).toNat : Int)) : Parsed Int) = .ok m ↔
          m = n ∧ n.natAbs < 2 ^ 63 := by
        rw [Except.ok.injEq]
        omega
      exact hvalue
    · rw [if_neg hfits]
      have hnone : ¬ (m = n ∧ n.natAbs < 2 ^ 63) := by omega
      exact iff_of_false (by intro hok; cases hok) hnone

/-! ## Keywords of types -/

/-- One of several keywords is read where the text begins with one. -/
theorem words_read {ws : List String} {s : List Char}
    (h : ws.any (fun w => beginsWith w s) = true) :
    ∃ rest, rest <:+ s ∧ Reads grammar (firstOf (ws.map word)) s [] rest := by
  induction ws with
  | nil => simp at h
  | cons w ws ih =>
    have hfirst : beginsWith w s = true →
        ∃ rest, rest <:+ s ∧ Reads grammar (word w) s [] rest := by
      intro hw
      obtain ⟨text, rest, hs, -, hread⟩ := beginsWith_reads hw
      exact ⟨rest, ⟨text, hs.symm⟩, hread⟩
    cases ws with
    | nil => exact hfirst (by simpa using h)
    | cons w' ws =>
      by_cases hw : beginsWith w s = true
      · obtain ⟨rest, hsuffix, hread⟩ := hfirst hw
        exact ⟨rest, hsuffix, Reads.choice_left _ hread⟩
      · rw [List.any_cons, Bool.or_eq_true] at h
        obtain ⟨rest, hsuffix, hread⟩ := ih (h.resolve_left hw)
        exact ⟨rest, hsuffix, Reads.choice_right (word_fails (by simpa using hw)) hread⟩

theorem words_fail {w : String} {v : List String} {s : List Char}
    (h : (w :: v).any (fun w => beginsWith w s) = false) :
    Fails grammar (firstOf ((w :: v).map word)) s := by
  induction v generalizing w with
  | nil => exact word_fails (by simpa using h)
  | cons w' v ih =>
    rw [List.any_cons, Bool.or_eq_false_iff] at h
    exact Fails.choice (word_fails h.1) (ih h.2)

/-- The keywords of the elementary types, in the order of the grammar. -/
def elementaryWords : List String := elementaryTypes.map Prod.fst

def stringWords : List String := ["STRING", "WSTRING"]

/-- Whether the name begins with the keyword of a string type or an elementary type. -/
def beginsType (name : List Char) : Bool :=
  stringWords.any (fun w => beginsWith w name) || elementaryWords.any (fun w => beginsWith w name)

/-- No suffix of a name starts with a bracket. -/
theorem bracket_fails {name s : List Char} (hname : isIdentifier name = true) (hs : s <:+ name) :
    Fails grammar (str "[") s := by
  refine str_fails_of_head (d := '[') (by simp) fun c hc => ?_
  have hchar := List.all_eq_true.1 (isIdentifier_all hname) c
    (hs.subset (List.mem_of_mem_head? hc))
  have hne : c ≠ '[' := isNameChar_ne hchar (by decide)
  simpa using hne

theorem skip_in_name {name s : List Char} (hname : isIdentifier name = true) (hs : s <:+ name) :
    Reads grammar skip s [] s := by
  cases s with
  | nil => exact skip_reads (s := []) rfl
  | cons c s =>
    have hchar := List.all_eq_true.1 (isIdentifier_all hname) c (hs.subset List.mem_cons_self)
    refine skip_nothing ?_ (isNameChar_ne hchar (by decide)) (isNameChar_ne hchar (by decide)) s
    by_contra hblank
    rw [not_nameChar_of_blank (by simpa using hblank)] at hchar
    exact absurd hchar (by decide)

/-- A name is no array type, also when it begins with the keyword. -/
theorem arrayType_fails {name : List Char} (hname : isIdentifier name = true) :
    Fails grammar (.call .arrayType) name := by
  refine Fails.call (Fails.after (by decide) fun _ s hs _ => ?_)
  exact Fails.after (by decide) fun _ t ht _ =>
    Fails.seq_left _ (bracket_fails hname (ht.trans hs))

/-- A name that begins with no keyword of a type is read as a name. -/
theorem name_reads {name : List Char} (hname : isIdentifier name = true)
    (h : beginsType name = false) :
    Reads grammar (.call .dataType) name
      [.node .dataType name [.node .identifier name []]] [] := by
  simp only [beginsType, Bool.or_eq_false_iff] at h
  have hidentifier :
      Reads grammar (.call .identifier) (name ++ []) [.node .identifier name []] [] :=
    identifier_reads hname (stops_nil _)
  rw [List.append_nil] at hidentifier
  have hbody : Reads grammar (ruleBody .dataType) name [.node .identifier name []] [] :=
    Reads.choice_right (arrayType_fails hname)
      (Reads.choice_right (Fails.call (Fails.seq_left _ (words_fail h.1)))
        (Reads.choice_right (Fails.call (words_fail h.2)) hidentifier))
  simpa [grammar, ruleShape, Shape.wrap] using Reads.call (r := Rule.dataType) hbody

/-- No elementary type is a name. -/
theorem elementaryType_not_named (q : Node) (n : String) : elementaryType q ≠ .ok (.named n) := by
  intro h
  rw [elementaryType] at h
  split at h
  · rename_i entry hentry
    have hall : ∀ entry ∈ elementaryTypes, entry.2 ≠ .named n := by simp [elementaryTypes]
    exact hall entry (List.mem_of_find?_eq_some hentry) (Except.ok.inj h)
  · cases h

/-- A name that begins with such a keyword is cut after it, and no name is built. -/
theorem name_cut {name : List Char} (hname : isIdentifier name = true)
    (h : beginsType name = true) :
    ∃ q rest, Reads grammar (.call .dataType) name [q] rest ∧
      ∀ (R : LiteralReaders) (n : String), parseDataType R q ≠ .ok (.named n) := by
  by_cases hstring : stringWords.any (fun w => beginsWith w name) = true
  · obtain ⟨rest, hsuffix, hword⟩ := words_read hstring
    have hbody : Reads grammar (ruleBody .stringType) name [] rest :=
      Reads.seq hword (Reads.seq (skip_in_name hname hsuffix)
        (Reads.opt_none (Fails.seq_left _ (bracket_fails hname hsuffix))))
    refine ⟨_, rest, Reads.call (r := Rule.dataType) (Reads.choice_right (arrayType_fails hname)
      (Reads.choice_left _ (Reads.call (r := Rule.stringType) hbody))), fun R n hparse => ?_⟩
    have hvalue : (.ok (.string none) : Parsed DataType) = .ok (.named n) := hparse
    cases hvalue
  · have helementary : elementaryWords.any (fun w => beginsWith w name) = true := by
      simp only [beginsType, Bool.or_eq_true] at h
      exact h.resolve_left hstring
    have hnostring : Fails grammar (.call .stringType) name :=
      Fails.call (Fails.seq_left _ (words_fail (w := "STRING") (v := ["WSTRING"])
        (Bool.eq_false_of_not_eq_true hstring)))
    obtain ⟨rest, -, hword⟩ := words_read helementary
    refine ⟨_, rest, Reads.call (r := Rule.dataType) (Reads.choice_right (arrayType_fails hname)
      (Reads.choice_right hnostring (Reads.choice_left _
        (Reads.call (r := Rule.elementaryType) hword)))), fun R n => ?_⟩
    exact elementaryType_not_named _ n

/-! ## String types with a length -/

/-- A number in brackets. -/
theorem length_reads (n : Nat) :
    Reads grammar (parts [str "[", .call .integerLiteral, str "]"])
      ('[' :: (Nat.toDigits 10 n ++ [']'])) [.node .integerLiteral (Nat.toDigits 10 n) []] [] := by
  obtain ⟨d, ds, hdigits, hd, -⟩ := toDigits_cons n
  have hchar := isNameChar_of_isDigit hd
  have hends : NumberEnds [']'] := (BoundEnds.number (.inr ⟨[], rfl⟩))
  have hskip : Reads grammar skip (Nat.toDigits 10 n ++ [']']) [] (Nat.toDigits 10 n ++ [']']) := by
    rw [hdigits]
    exact skip_nothing (digit_not_blank hd) (isNameChar_ne hchar (by decide))
      (isNameChar_ne hchar (by decide)) _
  have hopen : Reads grammar (str "[") ('[' :: (Nat.toDigits 10 n ++ [']'])) []
      (Nat.toDigits 10 n ++ [']']) := str_reads (by simp [afterPrefix])
  have hclose : Reads grammar (str "]") [']'] [] [] := str_reads (by simp [afterPrefix])
  exact Reads.seq hopen (Reads.seq hskip (Reads.seq (integer_reads (integerText_toDigits n) hends)
    (Reads.seq (BoundEnds.skip (.inr ⟨[], rfl⟩)) hclose)))

/-- A keyword does not come where the text starts with another letter. -/
theorem word_fails_of_head {w : String} {d c : Char} {s : List Char} (hw : w.toList.head? = some d)
    (hs : s.head? = some c) (hne : d.toLower ≠ c.toLower) : Fails grammar (word w) s := by
  obtain ⟨t, rfl⟩ := List.head?_eq_some_iff.1 hs
  exact word_fails (beginsWith_of_head hw hne t)

/-- A string type with a length is read, but its length is taken for the name of the type. -/
theorem stringType_with_length (n : Nat) (w : List Char) :
    stringType (.node .stringType w [.node .integerLiteral (Nat.toDigits 10 n) []]) =
      .error "Unknown string type" := by
  obtain ⟨d, ds, hdigits, hd, -⟩ := toDigits_cons n
  have hupper : d.toUpper = d := by
    have hrange := Char.isDigit_iff_toNat.1 hd
    have hnine : '9'.toNat = 57 := rfl
    rw [← Char.toNat_inj, toNat_toUpper, if_neg (by omega)]
  have hletter : ∀ {c : Char} {t : List Char}, c.isDigit = false →
      (Nat.toDigits 10 n).map Char.toUpper ≠ c :: t := by
    intro c t hc heq
    rw [hdigits, List.map_cons, hupper] at heq
    rw [← (List.cons.inj heq).1, hd] at hc
    exact absurd hc (by decide)
  have hnostring := hletter (c := 'S') (t := "TRING".toList) (by decide)
  have hnowstring := hletter (c := 'W') (t := "STRING".toList) (by decide)
  simp only [stringType, Pair.inner_node, List.head?_cons, Option.map_some, Pair.text_node]
  rw [if_neg (by simpa using hnostring), if_neg (by simpa using hnowstring)]

/-- Each of the two string types is read with its length. -/
theorem string_reads_length {w : String} (hw : w ∈ stringWords) (n : Nat) :
    ∃ q, Reads grammar (.call .dataType) (w.toList ++ '[' :: (Nat.toDigits 10 n ++ [']'])) [q] [] ∧
      ∀ R, parseDataType R q = .error "Unknown string type" := by
  have hskip := skip_nothing (c := '[') (by decide) (by decide) (by decide)
    (Nat.toDigits 10 n ++ [']'])
  have hlength := Reads.opt_some (length_reads n)
  -- no array, and of the two keywords the one that was printed
  have hbody : Fails grammar (.call .arrayType) (w.toList ++ '[' :: (Nat.toDigits 10 n ++ [']'])) ∧
      Reads grammar (ruleBody .stringType) (w.toList ++ '[' :: (Nat.toDigits 10 n ++ [']']))
        [.node .integerLiteral (Nat.toDigits 10 n) []] [] := by
    simp only [stringWords, List.mem_cons, List.not_mem_nil, or_false] at hw
    rcases hw with rfl | rfl
    · have hnoarray := word_fails_of_head (w := "ARRAY") (d := 'A') (c := 'S')
        (s := "STRING".toList ++ '[' :: (Nat.toDigits 10 n ++ [']'])) (by simp) (by simp)
        (by decide)
      refine ⟨Fails.call (Fails.seq_left _ hnoarray), ?_⟩
      exact Reads.seq (Reads.choice_left _ (word_reads (by decide) _)) (Reads.seq hskip hlength)
    · have hnone := fun {v : String} {d : Char} (hv : v.toList.head? = some d) hne =>
        word_fails_of_head (c := 'W') (s := "WSTRING".toList ++ '[' :: (Nat.toDigits 10 n ++ [']']))
          hv (by simp) hne
      refine ⟨Fails.call (Fails.seq_left _ (hnone (d := 'A') (by simp) (by decide))), ?_⟩
      exact Reads.seq (Reads.choice_right (hnone (v := "STRING") (d := 'S') (by simp) (by decide))
        (word_reads (by decide) _)) (Reads.seq hskip hlength)
  refine ⟨_, Reads.call (r := Rule.dataType) (Reads.choice_right hbody.1
    (Reads.choice_left _ (Reads.call (r := Rule.stringType) hbody.2))), fun R => ?_⟩
  exact stringType_with_length n _

/-! ## Arrays -/

/-- The text of an array type over the text of its element type. -/
def arrayText (lower upper : Int) (element : List Char) : List Char :=
  "ARRAY".toList ++ '[' :: (boundText lower ++ '.' :: '.' ::
    (boundText upper ++ ']' :: ' ' :: ("OF".toList ++ ' ' :: element)))

theorem boundText_head (n : Int) :
    ∃ c s, boundText n = c :: s ∧ isBlank c = false ∧ c ≠ '/' ∧ c ≠ '(' := by
  rw [boundText]
  split
  · obtain ⟨d, ds, hdigits, hd, -⟩ := toDigits_cons n.toNat
    have hchar := isNameChar_of_isDigit hd
    exact ⟨d, ds, hdigits, digit_not_blank hd, isNameChar_ne hchar (by decide),
      isNameChar_ne hchar (by decide)⟩
  · exact ⟨'-', _, rfl, by decide, by decide, by decide⟩

theorem skip_before_bound (n : Int) (s : List Char) :
    Reads grammar skip (boundText n ++ s) [] (boundText n ++ s) := by
  obtain ⟨c, t, htext, hblank, hslash, hparen⟩ := boundText_head n
  rw [htext]
  exact skip_nothing hblank hslash hparen _

/-- The bounds are the values of two expressions. -/
theorem parseBounds_pair (r : Rule) (t : List Char) (p q : Node) (b : Int × Int) :
    parseBounds R (.node r t [p, q]) = .ok b ↔
      ∃ l u, parseExpression R p >>= exprToI64 = .ok l ∧
        parseExpression R q >>= exprToI64 = .ok u ∧ b = (l, u) := by
  simp only [parseBounds, Pair.inner_node]
  cases parseExpression R p with
  | error m => simp [bind, Except.bind]
  | ok e =>
    cases parseExpression R q with
    | error m => simp [bind, Except.bind]
    | ok e' =>
      cases hl : exprToI64 e <;> cases hu : exprToI64 e' <;>
        simp [bind, Except.bind, pure, Except.pure, hl, hu, eq_comm]

/-- The two bounds. -/
theorem subrange_reads (lower upper : Int) {r : List Char} (hrest : ∃ s, r = ']' :: s) :
    ∃ q, Reads grammar (.call .subrange) (boundText lower ++ '.' :: '.' :: (boundText upper ++ r))
        [q] r ∧
      ∀ (R : LiteralReaders) (b : Int × Int), parseBounds R q = .ok b ↔
        b = (lower, upper) ∧ lower.natAbs < 2 ^ 63 ∧ upper.natAbs < 2 ^ 63 := by
  have hdots : BoundEnds ('.' :: '.' :: (boundText upper ++ r)) := .inl ⟨_, rfl⟩
  obtain ⟨p, hlower, hlowerValue⟩ := bound_reads lower hdots
  obtain ⟨q, hupper, hupperValue⟩ := bound_reads upper (r := r) (.inr hrest)
  have hsep : Reads grammar (str "..") ('.' :: '.' :: (boundText upper ++ r)) []
      (boundText upper ++ r) := str_reads (by simp [afterPrefix])
  have hbody : Reads grammar (ruleBody .subrange)
      (boundText lower ++ '.' :: '.' :: (boundText upper ++ r)) [p, q] r :=
    Reads.seq hlower (Reads.seq hdots.skip (Reads.seq hsep
      (Reads.seq (skip_before_bound upper r) hupper)))
  refine ⟨_, Reads.call (r := Rule.subrange) hbody, fun R b => ?_⟩
  refine (parseBounds_pair _ _ p q b).trans ⟨?_, ?_⟩
  · rintro ⟨l, u, hl, hu, rfl⟩
    obtain ⟨rfl, hlow⟩ := (hlowerValue R l).1 hl
    obtain ⟨rfl, hup⟩ := (hupperValue R u).1 hu
    exact ⟨rfl, hlow, hup⟩
  · rintro ⟨rfl, hlow, hup⟩
    exact ⟨lower, upper, (hlowerValue R lower).2 ⟨rfl, hlow⟩, (hupperValue R upper).2 ⟨rfl, hup⟩,
      rfl⟩

theorem word_of_eq {w : String} {text s : List Char} (h : text = w.toList) :
    Reads grammar (word w) (text ++ s) [] s :=
  word_reads (by simp [sameWord, h]) s

theorem parseDataType_array (r : Rule) (text w : List Char) (b q : Node) :
    parseDataType R (.node r text [.node .arrayType w [b, q]]) =
      (parseBounds R b >>= fun bounds => (parseDataType R q).map (.array bounds.1 bounds.2)) := by
  rw [parseDataType]
  simp only [Pair.rule_node, parseArrayType]
  cases parseBounds R b with
  | error m => rfl
  | ok bounds => cases parseDataType R q <;> rfl

/-- An array is read when its element type is, up to the same end, and its value is the array of
the bounds and of the element type's value. -/
theorem array_reads (lower upper : Int) {element rest : List Char} {q : Node}
    (hskip : Reads grammar skip (' ' :: element) [] element)
    (h : Reads grammar (.call .dataType) element [q] rest) :
    ∃ p, Reads grammar (.call .dataType) (arrayText lower upper element) [p] rest ∧
      ∀ (R : LiteralReaders) (t : DataType), parseDataType R p = .ok (.array lower upper t) ↔
        parseDataType R q = .ok t ∧ lower.natAbs < 2 ^ 63 ∧ upper.natAbs < 2 ^ 63 := by
  obtain ⟨b, hbounds, hvalue⟩ := subrange_reads lower upper
    (r := ']' :: ' ' :: ("OF".toList ++ ' ' :: element)) ⟨_, rfl⟩
  have hopen := skip_nothing (c := '[') (by decide) (by decide) (by decide)
    (boundText lower ++ '.' :: '.' ::
      (boundText upper ++ ']' :: ' ' :: ("OF".toList ++ ' ' :: element)))
  have hclose := skip_nothing (c := ']') (by decide) (by decide) (by decide)
    (' ' :: ("OF".toList ++ ' ' :: element))
  -- the blank before OF is skipped, and OF begins no comment
  have hof : Reads grammar skip (' ' :: ("OF".toList ++ ' ' :: element)) []
      ("OF".toList ++ ' ' :: element) := by
    have htrim : trim (' ' :: ("OF".toList ++ ' ' :: element)) = "OF".toList ++ ' ' :: element := by
      rw [← List.singleton_append, trim_append_of_blank (by decide)]
      exact trim_of_stops (by simp [Stops, isBlank])
    have hread := skip_reads (s := ' ' :: ("OF".toList ++ ' ' :: element))
      (by rw [htrim]; simp [noComment])
    rwa [htrim] at hread
  have hbody : Reads grammar (ruleBody .arrayType) (arrayText lower upper element) [b, q] rest := by
    refine Reads.seq (word_of_eq rfl) (Reads.seq hopen ?_)
    refine Reads.seq (str_reads_append (p := ['[']) (by simp) _) ?_
    refine Reads.seq (skip_before_bound lower _) (Reads.seq hbounds (Reads.seq hclose ?_))
    refine Reads.seq (str_reads_append (p := [']']) (by simp) _) (Reads.seq hof ?_)
    exact Reads.seq (word_of_eq rfl) (Reads.seq hskip h)
  refine ⟨_, Reads.call (r := Rule.dataType) (Reads.choice_left _
    (Reads.call (r := Rule.arrayType) hbody)), fun R t => ?_⟩
  show parseDataType R (.node .dataType _ [.node .arrayType _ [b, q]]) = _ ↔ _
  rw [parseDataType_array]
  constructor
  · intro hok
    obtain ⟨bounds, hb, hok⟩ := parsed_bind_ok hok
    obtain ⟨rfl, hlow, hup⟩ := (hvalue R bounds).1 hb
    cases hq : parseDataType R q with
    | error m =>
      rw [hq] at hok
      cases hok
    | ok t' =>
      rw [hq] at hok
      exact ⟨congrArg _ (DataType.array.inj (Except.ok.inj hok)).2.2, hlow, hup⟩
  · rintro ⟨hq, hlow, hup⟩
    rw [(hvalue R (lower, upper)).2 ⟨rfl, hlow, hup⟩, hq]
    rfl

/-! ## Which types come back -/

/-- Every name in the type is an identifier. -/
def DataType.NamesFit : DataType → Prop
  | .array _ _ elementType => elementType.NamesFit
  | .named name => isIdentifier name.toList = true
  | _ => True

/-- Whether the text of the type is read back as the type. -/
def DataType.comesBack : DataType → Bool
  | .timeOfDay | .dateTime | .string (some _) | .wString _ => false
  | .array lower upper elementType =>
    decide (lower.natAbs < 2 ^ 63) && decide (upper.natAbs < 2 ^ 63) && elementType.comesBack
  | .named name => !beginsType name.toList
  | _ => true

/-- The text of the type is read to its end, and the type is built from it. -/
def RoundTrips (R : LiteralReaders) (t : DataType) : Prop :=
  ∃ p, parse grammar (.call .dataType) t.display.toList = some (.ok [p] []) ∧
    parseDataType R p = .ok t

theorem display_array (lower upper : Int) (t : DataType) :
    (DataType.array lower upper t).display.toList = arrayText lower upper t.display.toList := by
  have hdisplay : (DataType.array lower upper t).display =
      "ARRAY[" ++ toString lower ++ ".." ++ toString upper ++ "] OF " ++ t.display := rfl
  rw [hdisplay]
  simp only [String.toList_append, toList_toString, List.append_assoc]
  rfl

theorem display_string (n : Nat) : (DataType.string (some n)).display.toList =
    "STRING".toList ++ '[' :: (Nat.toDigits 10 n ++ [']']) := by
  have hdisplay : (DataType.string (some n)).display = "STRING[" ++ toString n ++ "]" := rfl
  rw [hdisplay, Nat.toString_eq_ofList_toDigits]
  simp

theorem display_wString (n : Nat) : (DataType.wString (some n)).display.toList =
    "WSTRING".toList ++ '[' :: (Nat.toDigits 10 n ++ [']']) := by
  have hdisplay : (DataType.wString (some n)).display = "WSTRING[" ++ toString n ++ "]" := rfl
  rw [hdisplay, Nat.toString_eq_ofList_toDigits]
  simp

/-- The text of a type starts like a name. -/
theorem display_head {t : DataType} (h : t.NamesFit) :
    ∃ c s, t.display.toList = c :: s ∧ isNameStart c = true := by
  cases t with
  | array lower upper elementType =>
    exact ⟨'A', _, display_array lower upper elementType, by decide⟩
  | named name => exact identifier_head h
  | string len =>
    cases len with
    | none => exact ⟨'S', "TRING".toList, rfl, by decide⟩
    | some n => exact ⟨'S', _, display_string n, by decide⟩
  | wString len =>
    cases len with
    | none => exact ⟨'W', "STRING".toList, rfl, by decide⟩
    | some n => exact ⟨'W', _, display_wString n, by decide⟩
  | _ => exact ⟨_, _, rfl, by decide⟩

theorem skip_before_type {t : DataType} (h : t.NamesFit) :
    Reads grammar skip (' ' :: t.display.toList) [] t.display.toList := by
  obtain ⟨c, s, htext, hc⟩ := display_head h
  have hchar := isNameChar_of_isNameStart hc
  have hblank : isBlank c = false := by
    by_contra hb
    rw [not_nameChar_of_blank (by simpa using hb)] at hchar
    exact absurd hchar (by decide)
  rw [htext]
  have htrim : trim (' ' :: c :: s) = c :: s := by
    rw [← List.singleton_append, trim_append_of_blank (by decide)]
    exact trim_of_stops ((stops_cons _ _ _).2 hblank)
  have hread := skip_reads (s := ' ' :: c :: s)
    (by rw [htrim]; exact noComment_of_nameChar hchar s)
  rwa [htrim] at hread

/-- The rule for data types reads some part of the text, and all of it with the right value exactly
for the types that come back. -/
theorem display_reads (R : LiteralReaders) {t : DataType} (h : t.NamesFit) :
    ∃ p rest, Reads grammar (.call .dataType) t.display.toList [p] rest ∧
      (rest = [] ∧ parseDataType R p = .ok t ↔ t.comesBack = true) := by
  -- on the type; an array leaves what its element type leaves
  induction t with
  | array lower upper elementType ih =>
    obtain ⟨q, rest, hread, hiff⟩ := ih h
    obtain ⟨p, harray, hvalue⟩ :=
      array_reads lower upper (skip_before_type (t := elementType) h) hread
    rw [← display_array] at harray
    refine ⟨p, rest, harray, ?_⟩
    rw [hvalue]
    simp only [DataType.comesBack, Bool.and_eq_true, decide_eq_true_eq, ← hiff]
    tauto
  | named name =>
    cases hbegins : beginsType name.toList with
    | false =>
      refine ⟨_, [], name_reads h hbegins, iff_of_true ⟨rfl, ?_⟩ ?_⟩
      · simp [parseDataType, DataType.display]
      · simp [DataType.comesBack, hbegins]
    | true =>
      obtain ⟨q, rest, hread, hcut⟩ := name_cut h hbegins
      refine ⟨q, rest, hread, iff_of_false (fun hparse => hcut R name hparse.2) ?_⟩
      simp [DataType.comesBack, hbegins]
  | string len =>
    cases len with
    | none => exact ⟨_, _, parse_of_run (n := 40) rfl, iff_of_true ⟨rfl, rfl⟩ rfl⟩
    | some n =>
      obtain ⟨q, hread, herror⟩ := string_reads_length (w := "STRING") (by decide) n
      rw [← display_string] at hread
      refine ⟨q, [], hread, iff_of_false (fun hparse => ?_) (by simp [DataType.comesBack])⟩
      rw [herror] at hparse
      exact absurd hparse.2 (by simp)
  | wString len =>
    cases len with
    | none =>
      -- the type of the wide strings is built as the other one
      refine ⟨_, _, parse_of_run (n := 40) rfl, iff_of_false (fun hparse => ?_) (by decide)⟩
      have hvalue : (.ok (.string none) : Parsed DataType) = .ok (.wString none) := hparse.2
      cases hvalue
    | some n =>
      obtain ⟨q, hread, herror⟩ := string_reads_length (w := "WSTRING") (by decide) n
      rw [← display_wString] at hread
      refine ⟨q, [], hread, iff_of_false (fun hparse => ?_) (by simp [DataType.comesBack])⟩
      rw [herror] at hparse
      exact absurd hparse.2 (by simp)
  | timeOfDay =>
    exact ⟨_, _, parse_of_run (n := 40) rfl,
      iff_of_false (fun hparse => by cases hparse.1) (by decide)⟩
  | dateTime =>
    exact ⟨_, _, parse_of_run (n := 40) rfl,
      iff_of_false (fun hparse => by cases hparse.1) (by decide)⟩
  | _ => exact ⟨_, _, parse_of_run (n := 40) rfl, iff_of_true ⟨rfl, rfl⟩ rfl⟩

theorem comesBack_of_roundTrips {t : DataType} (h : t.NamesFit) (hround : RoundTrips R t) :
    t.comesBack = true := by
  obtain ⟨p, rest, hread, hiff⟩ := display_reads R h
  obtain ⟨q, hwhole, hparse⟩ := hround
  obtain ⟨hnode, rfl⟩ := hread.unique hwhole
  obtain rfl : p = q := (List.cons.inj hnode).1
  exact hiff.1 ⟨rfl, hparse⟩

/-- A type comes back from its text exactly when no keyword of a type cuts a name in it, it is
neither a wide string nor a string with a length nor one of the two types whose keyword begins with
another one, and no bound is beyond the literals. -/
theorem roundTrips_iff (R : LiteralReaders) (t : DataType) (h : t.NamesFit) :
    RoundTrips R t ↔ t.comesBack = true := by
  constructor
  · exact comesBack_of_roundTrips h
  · intro hback
    obtain ⟨p, rest, hread, hiff⟩ := display_reads R h
    obtain ⟨rfl, hparse⟩ := hiff.2 hback
    exact ⟨p, hread, hparse⟩

theorem roundTrips_motors :
    RoundTrips noReaders (.array (-3) 10 (.array 0 1 (.named "Motor"))) :=
  (roundTrips_iff noReaders (.array (-3) 10 (.array 0 1 (.named "Motor")))
    (show isIdentifier "Motor".toList = true by decide)).2 (by decide)

/-- Neither the time of day nor a wide string nor a string with a length comes back, nor does the
name `INTERLOCK`, which is no reserved word, nor an array from the smallest `i64` on. -/
theorem timeOfDay_lost : ¬ RoundTrips noReaders .timeOfDay ∧ ¬ RoundTrips noReaders .dateTime ∧
    ¬ RoundTrips noReaders (.wString none) ∧ ¬ RoundTrips noReaders (.string (some 80)) ∧
    fromKeyword "INTERLOCK".toList = none ∧ ¬ RoundTrips noReaders (.named "INTERLOCK") ∧
    ¬ RoundTrips noReaders (.array (-9223372036854775808) 0 .bool) := by
  have hlost : ∀ {t : DataType}, t.NamesFit → t.comesBack = false → ¬ RoundTrips noReaders t := by
    intro t hnames hback hround
    rw [comesBack_of_roundTrips hnames hround] at hback
    exact absurd hback (by decide)
  have hname : (DataType.named "INTERLOCK").NamesFit :=
    show isIdentifier "INTERLOCK".toList = true by decide
  exact ⟨hlost trivial rfl, hlost trivial rfl, hlost trivial rfl, hlost trivial rfl, by decide,
    hlost hname (by decide), hlost trivial (by decide)⟩

end VirtualPlc.Compiler

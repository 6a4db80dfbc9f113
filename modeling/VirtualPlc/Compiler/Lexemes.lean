import VirtualPlc.Compiler.Parser

/-!
# Blanks, keywords, identifiers and literals

What the small rules of the grammar read: blanks between the parts of a rule, a keyword in any
case of its letters, an identifier up to the first character that cannot belong to it, an integer
literal.
-/

set_option autoImplicit false

namespace VirtualPlc.Compiler

open VirtualPlc.Parsing

/-! ## Strings and characters of the grammar -/

theorem str_reads {s : String} {t rest : List Char}
    (h : afterPrefix (· == ·) s.toList t = some rest) : Reads grammar (str s) t [] rest :=
  Reads.terminal h

theorem str_fails {s : String} {t : List Char} (h : afterPrefix (· == ·) s.toList t = none) :
    Fails grammar (str s) t :=
  Fails.terminal h

theorem oneOf_reads {p : Char → Bool} {c : Char} (s : List Char) (h : p c = true) :
    Reads grammar (oneOf p) (c :: s) [] s :=
  Reads.terminal (by simp [Terminal.strip, h])

theorem oneOf_fails {p : Char → Bool} {s : List Char} (h : Stops p s) :
    Fails grammar (oneOf p) s := by
  apply Fails.terminal
  cases s with
  | nil => rfl
  | cons c s => simp [Terminal.strip, (stops_cons p c s).1 h]

/-- A class of characters and one more character. -/
theorem oneOf_or_reads {p : Char → Bool} {s : String} {d c : Char} (t : List Char)
    (hs : s.toList = [d]) (h : (p c || c == d) = true) :
    Reads grammar (firstOf [oneOf p, str s]) (c :: t) [] t := by
  by_cases hc : p c = true
  · exact Reads.choice_left _ (oneOf_reads t hc)
  · have hd : c = d := by simpa [hc] using h
    refine Reads.choice_right (oneOf_fails (by simpa using hc)) (str_reads ?_)
    simp [hs, hd, afterPrefix]

theorem oneOf_or_fails {p : Char → Bool} {s : String} {d : Char} {t : List Char}
    (hs : s.toList = [d]) (h : Stops (fun c => p c || c == d) t) :
    Fails grammar (firstOf [oneOf p, str s]) t := by
  cases t with
  | nil => exact Fails.choice (oneOf_fails (by simp)) (str_fails (by simp [hs, afterPrefix]))
  | cons c t =>
    simp only [stops_cons, Bool.or_eq_false_iff, beq_eq_false_iff_ne, ne_eq] at h
    refine Fails.choice (oneOf_fails (by simpa using h.1)) (str_fails ?_)
    simp [hs, afterPrefix, Ne.symm h.2]

/-! ## Blanks -/

/-- Blanks and line ends. -/
def isBlank (c : Char) : Bool :=
  c == ' ' || c == '\t' || c == '\r' || c == '\n'

/-- The text after the blanks that it starts with. -/
def trim (s : List Char) : List Char :=
  s.dropWhile isBlank

/-- No comment starts here. -/
def noComment : List Char → Bool
  | '/' :: '/' :: _ => false
  | '(' :: '*' :: _ => false
  | _ => true

theorem whitespace_reads {c : Char} (s : List Char) (h : isBlank c = true) :
    Reads grammar (.call .whitespace) (c :: s) [] s := by
  have hbody : Reads grammar (ruleBody .whitespace) (c :: s) [] s := by
    simp only [isBlank, Bool.or_eq_true, beq_iff_eq] at h
    rcases h with ((rfl | rfl) | rfl) | rfl <;>
      simp [Reads, ruleBody, firstOf, str, parse_choice, parse_terminal, Terminal.outcome,
        Terminal.strip, afterPrefix]
  exact Reads.call hbody

theorem whitespace_fails {s : List Char} (h : Stops isBlank s) :
    Fails grammar (.call .whitespace) s := by
  apply Fails.call
  have hone : ∀ {t : String} {d : Char}, t.toList = [d] → isBlank d = true →
      Fails grammar (str t) s := by
    intro t d ht hd
    apply str_fails
    cases s with
    | nil => simp [ht, afterPrefix]
    | cons c s =>
      have hne : d ≠ c := by
        rintro rfl
        simp [hd] at h
      simp [ht, afterPrefix, hne]
  exact Fails.choice (hone (d := ' ') (by simp) (by decide))
    (Fails.choice (hone (d := '\t') (by simp) (by decide))
      (Fails.choice (hone (d := '\r') (by simp) (by decide))
        (hone (d := '\n') (by simp) (by decide))))

theorem stops_trim (s : List Char) : Stops isBlank (trim s) := by
  intro c hc
  rw [trim] at hc
  by_contra hblank
  have hhead := List.head?_dropWhile_not isBlank s
  rw [hc] at hhead
  simp_all

theorem trim_of_stops {s : List Char} (h : Stops isBlank s) : trim s = s := by
  cases s with
  | nil => rfl
  | cons c s => simp [trim, (stops_cons isBlank c s).1 h]

@[simp]
theorem trim_trim (s : List Char) : trim (trim s) = trim s :=
  trim_of_stops (stops_trim s)

theorem trim_append_of_blank {g : List Char} (hg : g.all isBlank = true) (s : List Char) :
    trim (g ++ s) = trim s := by
  induction g with
  | nil => rfl
  | cons c g ih =>
    simp only [List.all_cons, Bool.and_eq_true] at hg
    rw [List.cons_append, trim, List.dropWhile_cons_of_pos hg.1]
    exact ih hg.2

theorem blanks_read (s : List Char) :
    Reads grammar (.star (.call .whitespace)) s [] (trim s) := by
  have hsplit : s = s.takeWhile isBlank ++ trim s := List.takeWhile_append_dropWhile.symm
  have hread := Reads.star_class (fun c t h => whitespace_reads t h)
    (fun t h => whitespace_fails h) (stops_trim s) (List.all_takeWhile (p := isBlank) (l := s))
  rwa [← hsplit] at hread

/-- Two characters that do not come first. -/
theorem afterPrefix_pair {c d : Char} {s : List Char} (h : ∀ t, s ≠ c :: d :: t) :
    afterPrefix (· == ·) [c, d] s = none := by
  rcases s with _ | ⟨c', _ | ⟨d', s⟩⟩
  · rfl
  · simp [afterPrefix]
  · have hne : c = c' → d ≠ d' := by
      rintro rfl rfl
      exact h s rfl
    by_cases hc : c = c'
    · simp [afterPrefix, hc, hne hc]
    · simp [afterPrefix, hc]

theorem comment_fails {s : List Char} (h : noComment s = true) :
    Fails grammar (.call .comment) s := by
  have hline : afterPrefix (· == ·) "//".toList s = none := by
    apply afterPrefix_pair (c := '/') (d := '/')
    rintro t rfl
    simp [noComment] at h
  have hblock : afterPrefix (· == ·) "(*".toList s = none := by
    apply afterPrefix_pair (c := '(') (d := '*')
    rintro t rfl
    simp [noComment] at h
  exact Fails.call (Fails.choice (Fails.call (Fails.seq_left _ (str_fails hline)))
    (Fails.call (Fails.seq_left _ (str_fails hblock))))

/-- Between the parts of a rule the blanks are skipped, where no comment follows them. -/
theorem skip_reads {s : List Char} (h : noComment (trim s) = true) :
    Reads grammar skip s [] (trim s) :=
  Reads.seq (blanks_read s) (Reads.star_stop (Fails.seq_left _ (comment_fails h)))

/-! ## Keywords -/

/-- Whether the text begins with the word, in any case of its letters. -/
def beginsWith (w : String) (text : List Char) : Bool :=
  (afterPrefix sameLetter w.toList text).isSome

/-- Whether the text is the word, in any case of its letters. -/
def sameWord (w : String) (text : List Char) : Bool :=
  text.map Char.toLower == w.toList.map Char.toLower

theorem afterPrefix_sameLetter {cs text : List Char}
    (h : text.map Char.toLower = cs.map Char.toLower) (s : List Char) :
    afterPrefix sameLetter cs (text ++ s) = some s := by
  induction cs generalizing text with
  | nil =>
    have htext : text = [] := by simpa using h
    simp [htext, afterPrefix]
  | cons c cs ih =>
    cases text with
    | nil => simp at h
    | cons d text =>
      simp only [List.map_cons, List.cons.injEq] at h
      simp [afterPrefix, sameLetter, h.1, ih h.2]

theorem afterPrefix_eq_some {cs s rest : List Char} (h : afterPrefix sameLetter cs s = some rest) :
    ∃ text, s = text ++ rest ∧ text.map Char.toLower = cs.map Char.toLower := by
  induction cs generalizing s with
  | nil =>
    simp only [afterPrefix, Option.some.injEq] at h
    exact ⟨[], h, rfl⟩
  | cons c cs ih =>
    cases s with
    | nil => simp [afterPrefix] at h
    | cons d s =>
      simp only [afterPrefix] at h
      split at h
      · rename_i hcd
        obtain ⟨text, rfl, htext⟩ := ih h
        have hletter : c.toLower = d.toLower := by simpa [sameLetter] using hcd
        exact ⟨d :: text, rfl, by simp [htext, hletter]⟩
      · simp at h

theorem word_reads {w : String} {text : List Char} (h : sameWord w text = true) (s : List Char) :
    Reads grammar (word w) (text ++ s) [] s :=
  Reads.terminal (afterPrefix_sameLetter (by simpa [sameWord] using h) s)

theorem word_fails {w : String} {s : List Char} (h : beginsWith w s = false) :
    Fails grammar (word w) s :=
  Fails.terminal (Option.isSome_eq_false_iff.1 h |> Option.isNone_iff_eq_none.1)

/-- A text that begins with a word reads it. -/
theorem beginsWith_reads {w : String} {s : List Char} (h : beginsWith w s = true) :
    ∃ text rest, s = text ++ rest ∧ sameWord w text = true ∧
      Reads grammar (word w) s [] rest := by
  obtain ⟨rest, hrest⟩ := Option.isSome_iff_exists.1 h
  obtain ⟨text, hs, htext⟩ := afterPrefix_eq_some hrest
  exact ⟨text, rest, hs, by simp [sameWord, htext], Reads.terminal hrest⟩

/-! ## Identifiers -/

/-- Characters that an identifier may start with. -/
def isNameStart (c : Char) : Bool :=
  c.isAlpha || c == '_'

/-- Characters of an identifier. -/
def isNameChar (c : Char) : Bool :=
  c.isAlphanum || c == '_'

/-- Whether the text is an identifier. -/
def isIdentifier : List Char → Bool
  | [] => false
  | c :: cs => isNameStart c && cs.all isNameChar

theorem isNameChar_of_isNameStart {c : Char} (h : isNameStart c = true) : isNameChar c = true := by
  simp only [isNameStart, Bool.or_eq_true] at h
  simp only [isNameChar, Char.isAlphanum, Bool.or_eq_true]
  tauto

theorem isAlpha_iff (c : Char) : c.isAlpha = true ↔
    (65 ≤ c.toNat ∧ c.toNat ≤ 90) ∨ (97 ≤ c.toNat ∧ c.toNat ≤ 122) := by
  show (decide (c.val ≥ 'A'.val ∧ c.val ≤ 'Z'.val) ||
    (decide (c.val ≥ 'a'.val) && decide (c.val ≤ 'z'.val))) = true ↔ _
  simp only [Bool.or_eq_true, Bool.and_eq_true, decide_eq_true_eq]
  exact Iff.rfl

theorem not_isDigit {c : Char} (h : isNameStart c = true) : c.isDigit = false := by
  by_contra hdigit
  simp only [Bool.not_eq_false, Char.isDigit_iff_toNat] at hdigit
  have hrange : 48 ≤ c.toNat ∧ c.toNat ≤ 57 := hdigit
  simp only [isNameStart, Bool.or_eq_true, isAlpha_iff, beq_iff_eq] at h
  rcases h with (h | h) | rfl
  · omega
  · omega
  · exact absurd hrange (by decide)

theorem isIdentifier_all {name : List Char} (h : isIdentifier name = true) :
    name.all isNameChar = true := by
  cases name with
  | nil => rfl
  | cons c cs =>
    simp only [isIdentifier, Bool.and_eq_true] at h
    simp [isNameChar_of_isNameStart h.1, h.2]

theorem identifier_reads {name rest : List Char} (h : isIdentifier name = true)
    (hrest : Stops isNameChar rest) :
    Reads grammar (.call .identifier) (name ++ rest) [.node .identifier name []] rest := by
  cases name with
  | nil => simp [isIdentifier] at h
  | cons c cs =>
    simp only [isIdentifier, Bool.and_eq_true] at h
    have hbody : Reads grammar (ruleBody .identifier) (c :: (cs ++ rest)) [] rest := by
      refine Reads.seq (oneOf_or_reads (d := '_') _ (by simp) (by simpa [isNameStart] using h.1)) ?_
      refine Reads.star_class (p := isNameChar) (fun d s hd => ?_) (fun s hs => ?_) hrest h.2
      · exact oneOf_or_reads (d := '_') s (by simp) hd
      · exact oneOf_or_fails (d := '_') (by simp) hs
    simpa [grammar, ruleShape, Shape.wrap] using Reads.call (r := Rule.identifier) hbody

theorem identifier_fails {s : List Char} (h : Stops isNameStart s) :
    Fails grammar (.call .identifier) s :=
  Fails.call (Fails.seq_left _ (oneOf_or_fails (d := '_') (by simp) h))

/-! ## Where a token ends -/

/-- The text cannot continue an identifier or a number. -/
def TokenEnds (rest : List Char) : Prop :=
  Stops (fun c => isNameChar c || c == '#' || c == '.') rest

theorem TokenEnds.stops {rest : List Char} (h : TokenEnds rest) {p : Char → Bool}
    (hp : ∀ c, p c = true → (isNameChar c || c == '#' || c == '.') = true) : Stops p rest :=
  Stops.mono h hp

theorem TokenEnds.name {rest : List Char} (h : TokenEnds rest) : Stops isNameChar rest :=
  h.stops fun c hc => by simp [hc]

theorem isNameChar_of_isDigit {c : Char} (h : c.isDigit = true) : isNameChar c = true := by
  simp [isNameChar, Char.isAlphanum, h]

theorem toNat_toLower (c : Char) :
    c.toLower.toNat = if 65 ≤ c.toNat ∧ c.toNat ≤ 90 then c.toNat + 32 else c.toNat := by
  have hA : 'A'.val ≤ c.val ↔ 65 ≤ c.toNat := UInt32.le_iff_toNat_le
  have hZ : c.val ≤ 'Z'.val ↔ c.toNat ≤ 90 := UInt32.le_iff_toNat_le
  show (dite (c.val ≥ 'A'.val ∧ c.val ≤ 'Z'.val) _ _ : Char).toNat = _
  split
  · rename_i h
    have hrange : 65 ≤ c.toNat ∧ c.toNat ≤ 90 := ⟨hA.1 h.1, hZ.1 h.2⟩
    rw [if_pos hrange]
    have hsum : (c.val + ('a'.val - 'A'.val)).toNat = c.val.toNat + 32 := by
      rw [UInt32.toNat_add]
      exact Nat.mod_eq_of_lt (show c.toNat + 32 < _ by omega)
    exact hsum
  · rename_i h
    rw [if_neg fun hrange => h ⟨hA.2 hrange.1, hZ.2 hrange.2⟩]

theorem isNameChar_iff (c : Char) : isNameChar c = true ↔
    (65 ≤ c.toNat ∧ c.toNat ≤ 90) ∨ (97 ≤ c.toNat ∧ c.toNat ≤ 122) ∨
      (48 ≤ c.toNat ∧ c.toNat ≤ 57) ∨ c.toNat = 95 := by
  have hunder : c = '_' ↔ c.toNat = 95 := by
    rw [← Char.toNat_inj]
    rfl
  have hdigit : c.isDigit = true ↔ 48 ≤ c.toNat ∧ c.toNat ≤ 57 := Char.isDigit_iff_toNat
  simp only [isNameChar, Char.isAlphanum, Bool.or_eq_true, beq_iff_eq, isAlpha_iff, hdigit, hunder]
  omega

theorem isNameChar_toLower (c : Char) : isNameChar c.toLower = isNameChar c := by
  rw [Bool.eq_iff_iff, isNameChar_iff, isNameChar_iff, toNat_toLower]
  split <;> omega

theorem sameLetter_isNameChar {c d : Char} (h : sameLetter c d = true) :
    isNameChar d = isNameChar c := by
  have hlower : c.toLower = d.toLower := by simpa [sameLetter] using h
  rw [← isNameChar_toLower d, ← hlower, isNameChar_toLower]

/-- A word of name characters is not cut by the end of the name. -/
theorem afterPrefix_append {cs : List Char} (hcs : cs.all isNameChar = true) {rest : List Char}
    (hrest : Stops isNameChar rest) (name : List Char) :
    (afterPrefix sameLetter cs (name ++ rest)).isSome =
      (afterPrefix sameLetter cs name).isSome := by
  induction cs generalizing name with
  | nil => rfl
  | cons c cs ih =>
    simp only [List.all_cons, Bool.and_eq_true] at hcs
    cases name with
    | cons d name =>
      simp only [List.cons_append, afterPrefix]
      split
      · exact ih hcs.2 name
      · rfl
    | nil =>
      cases rest with
      | nil => rfl
      | cons d rest =>
        have hd : isNameChar d = false := (stops_cons _ _ _).1 hrest
        have hne : sameLetter c d = false := by
          by_contra hsame
          rw [sameLetter_isNameChar (by simpa using hsame), hcs.1] at hd
          exact absurd hd (by decide)
        simp [afterPrefix, hne]

theorem beginsWith_append {w : String} (hw : w.toList.all isNameChar = true) {rest : List Char}
    (hrest : Stops isNameChar rest) (name : List Char) :
    beginsWith w (name ++ rest) = beginsWith w name :=
  afterPrefix_append hw hrest name

/-- The text cannot continue a number: neither its digits nor with a fraction. -/
structure NumberEnds (rest : List Char) : Prop where
  stops : Stops (fun c => isNameChar c || c == '#') rest
  fraction : ∀ t, rest = '.' :: t → Stops Char.isDigit t

theorem TokenEnds.number {rest : List Char} (h : TokenEnds rest) : NumberEnds rest := by
  refine ⟨h.stops fun c hc => by simp only [Bool.or_eq_true] at hc ⊢; tauto, ?_⟩
  rintro t rfl
  simp [TokenEnds] at h

/-- A name with an end does not have a `#` after name characters. -/
theorem no_hash {pre name rest r : List Char} (hpre : pre.all isNameChar = true)
    (hname : name.all isNameChar = true) (hrest : Stops (fun c => isNameChar c || c == '#') rest) :
    name ++ rest ≠ pre ++ '#' :: r := by
  intro h
  have hdrop := congrArg (List.dropWhile isNameChar) h
  rw [List.dropWhile_append_of_pos (by simpa using hname),
    List.dropWhile_append_of_pos (by simpa using hpre),
    List.dropWhile_cons_of_neg (by decide)] at hdrop
  have hstop : rest.dropWhile isNameChar = rest := by
    cases rest with
    | nil => rfl
    | cons c rest =>
      have hc := (stops_cons _ _ _).1 hrest
      simp only [Bool.or_eq_false_iff] at hc
      simp [hc.1]
  rw [hstop] at hdrop
  rw [hdrop] at hrest
  exact absurd ((stops_cons _ _ _).1 hrest) (by decide)

/-! ## Literals -/

/-- The texts of integer literals: a prefix for the base and at least one digit or separator, or
decimal digits and separators after a digit. -/
inductive IntegerText : List Char → Prop
  | binary (ds : List Char) : ds ≠ [] → ds.all (fun c => ('0' ≤ c && c ≤ '1') || c == '_') = true →
      IntegerText ('2' :: '#' :: ds)
  | octal (ds : List Char) : ds ≠ [] → ds.all (fun c => ('0' ≤ c && c ≤ '7') || c == '_') = true →
      IntegerText ('8' :: '#' :: ds)
  | hex (ds : List Char) : ds ≠ [] → ds.all (fun c => isHexDigit c || c == '_') = true →
      IntegerText ('1' :: '6' :: '#' :: ds)
  | decimal (d : Char) (ds : List Char) : d.isDigit = true →
      ds.all (fun c => c.isDigit || c == '_') = true → IntegerText (d :: ds)

theorem afterPrefix_exact {cs s rest : List Char} (h : afterPrefix (· == ·) cs s = some rest) :
    s = cs ++ rest := by
  induction cs generalizing s with
  | nil => simpa [afterPrefix] using h
  | cons c cs ih =>
    cases s with
    | nil => simp [afterPrefix] at h
    | cons d s =>
      simp only [afterPrefix] at h
      split at h
      · rename_i hcd
        rw [ih h, ← eq_of_beq hcd]
        rfl
      · simp at h

theorem afterPrefix_self (cs s : List Char) : afterPrefix (· == ·) cs (cs ++ s) = some s := by
  induction cs with
  | nil => rfl
  | cons c cs ih => simpa [afterPrefix] using ih

/-- A string is read where it is a prefix. -/
theorem str_reads_append {s : String} {p : List Char} (hs : s.toList = p) (t : List Char) :
    Reads grammar (str s) (p ++ t) [] t :=
  str_reads (by rw [hs, afterPrefix_self])

/-- A string that is no prefix fails. -/
theorem str_fails_of_ne {s : String} {t : List Char} (h : ∀ rest, t ≠ s.toList ++ rest) :
    Fails grammar (str s) t := by
  apply str_fails
  cases hprefix : afterPrefix (· == ·) s.toList t with
  | none => rfl
  | some rest => exact absurd (afterPrefix_exact hprefix) (h rest)

/-- Digits and separators up to their end. -/
theorem digits_read {p : Char → Bool} {ds rest : List Char} (hne : ds ≠ [])
    (hds : ds.all (fun c => p c || c == '_') = true)
    (hrest : Stops (fun c => p c || c == '_') rest) :
    Reads grammar (some1 (firstOf [oneOf p, str "_"])) (ds ++ rest) [] rest := by
  cases ds with
  | nil => exact absurd rfl hne
  | cons c ds =>
    simp only [List.all_cons, Bool.and_eq_true] at hds
    refine Reads.seq (oneOf_or_reads (d := '_') _ (by simp) hds.1) ?_
    exact Reads.star_class (fun d s hd => oneOf_or_reads (d := '_') s (by simp) hd)
      (fun s hs => oneOf_or_fails (d := '_') (by simp) hs) hrest hds.2

theorem isDigit_of_le {c d : Char} (hd : d ≤ '9') (h : ('0' ≤ c && c ≤ d) = true) :
    c.isDigit = true := by
  simp only [Bool.and_eq_true, decide_eq_true_eq] at h
  simp only [Char.isDigit, Bool.and_eq_true, decide_eq_true_eq]
  exact ⟨h.1, Char.le_trans h.2 hd⟩

theorem isNameChar_of_isHexDigit {c : Char} (h : isHexDigit c = true) : isNameChar c = true := by
  simp only [isHexDigit, Char.isDigit, Bool.or_eq_true, Bool.and_eq_true, decide_eq_true_eq,
    ge_iff_le, Char.le_def, UInt32.le_iff_toNat_le] at h
  have hcode : (48 ≤ c.toNat ∧ c.toNat ≤ 57 ∨ 97 ≤ c.toNat ∧ c.toNat ≤ 102) ∨
      65 ≤ c.toNat ∧ c.toNat ≤ 70 := h
  rw [isNameChar_iff]
  omega

theorem integer_reads {text : List Char} (h : IntegerText text) {rest : List Char}
    (hrest : NumberEnds rest) :
    Reads grammar (.call .integerLiteral) (text ++ rest) [.node .integerLiteral text []] rest := by
  have hends : ∀ {p : Char → Bool}, (∀ c, p c = true → isNameChar c = true) →
      Stops (fun c => p c || c == '_') rest := by
    intro p hp
    refine hrest.stops.mono fun c hc => ?_
    simp only [Bool.or_eq_true, beq_iff_eq] at hc
    rcases hc with hc | rfl
    · simp [hp c hc]
    · decide
  have hdigit : ∀ {d : Char}, d ≤ '9' → ∀ c, ('0' ≤ c && c ≤ d) = true → isNameChar c = true :=
    fun hd c hc => isNameChar_of_isDigit (isDigit_of_le hd hc)
  have hbody : Reads grammar (ruleBody .integerLiteral) (text ++ rest) [] rest := by
    cases h with
    | binary ds hne hds =>
      refine Reads.choice_left _
        (Reads.seq (t := ds ++ rest) (str_reads (by simp [afterPrefix])) ?_)
      exact digits_read hne hds (hends (hdigit (by decide)))
    | octal ds hne hds =>
      refine Reads.choice_right (Fails.seq_left _ (str_fails (by simp [afterPrefix]))) ?_
      refine Reads.choice_left _
        (Reads.seq (t := ds ++ rest) (str_reads (by simp [afterPrefix])) ?_)
      exact digits_read hne hds (hends (hdigit (by decide)))
    | hex ds hne hds =>
      refine Reads.choice_right (Fails.seq_left _ (str_fails (by simp [afterPrefix]))) ?_
      refine Reads.choice_right (Fails.seq_left _ (str_fails (by simp [afterPrefix]))) ?_
      refine Reads.choice_left _
        (Reads.seq (t := ds ++ rest) (str_reads (by simp [afterPrefix])) ?_)
      exact digits_read hne hds (hends fun c hc => isNameChar_of_isHexDigit hc)
    | decimal d ds hd hds =>
      -- no base comes first, since no `#` follows digits and separators
      have hname : (d :: ds).all isNameChar = true := by
        rw [List.all_cons, isNameChar_of_isDigit hd, Bool.true_and, List.all_eq_true]
        intro c hc
        have hdig := List.all_eq_true.1 hds c hc
        simp only [Bool.or_eq_true, beq_iff_eq] at hdig
        rcases hdig with hdig | rfl
        · exact isNameChar_of_isDigit hdig
        · decide
      have hbase : ∀ {s : String} {p : List Char}, s.toList = p ++ ['#'] →
          p.all isNameChar = true → Fails grammar (str s) (d :: ds ++ rest) := by
        intro s p hs hp
        refine str_fails_of_ne fun r hr => no_hash hp hname hrest.stops (r := r) ?_
        rw [hr, hs, List.append_assoc]
        rfl
      refine Reads.choice_right (Fails.seq_left _ (hbase (p := ['2']) (by simp) (by decide))) ?_
      refine Reads.choice_right (Fails.seq_left _ (hbase (p := ['8']) (by simp) (by decide))) ?_
      refine Reads.choice_right
        (Fails.seq_left _ (hbase (p := ['1', '6']) (by simp) (by decide))) ?_
      refine Reads.seq (oneOf_reads _ hd) ?_
      exact Reads.star_class (fun c s hc => oneOf_or_reads (d := '_') s (by simp) hc)
        (fun s hs => oneOf_or_fails (d := '_') (by simp) hs)
        (hends fun c hc => isNameChar_of_isDigit hc) hds
  simpa [grammar, ruleShape, Shape.wrap] using Reads.call (r := Rule.integerLiteral) hbody

/-- An integer literal starts with a digit and holds digits, separators and `#`. -/
theorem IntegerText.shape {text : List Char} (h : IntegerText text) :
    (∃ d ds, text = d :: ds ∧ d.isDigit = true) ∧ ∀ c ∈ text, isNameChar c = true ∨ c = '#' := by
  have hdigits : ∀ {p : Char → Bool} {ds : List Char}, (∀ c, p c = true → isNameChar c = true) →
      ds.all (fun c => p c || c == '_') = true → ∀ c ∈ ds, isNameChar c = true ∨ c = '#' := by
    intro p ds hp hds c hc
    have hdig := List.all_eq_true.1 hds c hc
    simp only [Bool.or_eq_true, beq_iff_eq] at hdig
    rcases hdig with hdig | rfl
    · exact .inl (hp c hdig)
    · exact .inl (by decide)
  have hdec : ∀ {d : Char}, d ≤ '9' → ∀ c, ('0' ≤ c && c ≤ d) = true → isNameChar c = true :=
    fun hd c hc => isNameChar_of_isDigit (isDigit_of_le hd hc)
  cases h with
  | binary ds hne hds =>
    refine ⟨⟨_, _, rfl, by decide⟩, ?_⟩
    simp only [List.forall_mem_cons]
    exact ⟨.inl (by decide), .inr trivial, hdigits (hdec (by decide)) hds⟩
  | octal ds hne hds =>
    refine ⟨⟨_, _, rfl, by decide⟩, ?_⟩
    simp only [List.forall_mem_cons]
    exact ⟨.inl (by decide), .inr trivial, hdigits (hdec (by decide)) hds⟩
  | hex ds hne hds =>
    refine ⟨⟨_, _, rfl, by decide⟩, ?_⟩
    simp only [List.forall_mem_cons]
    exact ⟨.inl (by decide), .inl (by decide), .inr trivial,
      hdigits (fun c hc => isNameChar_of_isHexDigit hc) hds⟩
  | decimal d ds hd hds =>
    refine ⟨⟨_, _, rfl, hd⟩, ?_⟩
    simp only [List.forall_mem_cons]
    exact ⟨.inl (isNameChar_of_isDigit hd), hdigits (fun c hc => isNameChar_of_isDigit hc) hds⟩

/-- A number with a fraction needs a full stop after its first digits. -/
theorem real_fails {text rest : List Char} (htext : ∀ c ∈ text, c ≠ '.') (hrest : NumberEnds rest) :
    Fails grammar (.call .realLiteral) (text ++ rest) := by
  apply Fails.call
  have hrestDigit : Stops Char.isDigit rest :=
    hrest.stops.mono fun c hc => by simp [isNameChar_of_isDigit hc]
  cases text with
  | nil => exact Fails.seq_left _ (Fails.seq_left _ (oneOf_fails hrestDigit))
  | cons d ds =>
    by_cases hd : d.isDigit = true
    · -- the digits are read, and what follows them is not a full stop
      have hds : ds ++ rest = ds.takeWhile Char.isDigit ++ (ds.dropWhile Char.isDigit ++ rest) := by
        rw [← List.append_assoc, List.takeWhile_append_dropWhile]
      have hstop : Stops Char.isDigit (ds.dropWhile Char.isDigit ++ rest) := by
        cases hdrop : ds.dropWhile Char.isDigit with
        | nil => exact hrestDigit
        | cons c cs =>
          have hhead := List.head?_dropWhile_not Char.isDigit ds
          rw [hdrop] at hhead
          simpa using hhead
      have hdigits : Reads grammar (some1 (oneOf Char.isDigit)) (d :: ds ++ rest) []
          (ds.dropWhile Char.isDigit ++ rest) := by
        refine Reads.seq (t := ds ++ rest) (oneOf_reads _ hd) ?_
        rw [hds]
        exact Reads.star_class (fun c s hc => oneOf_reads s hc) (fun s hs => oneOf_fails hs) hstop
          List.all_takeWhile
      refine Fails.seq_right hdigits ?_
      cases hdrop : ds.dropWhile Char.isDigit with
      | nil =>
        by_cases hdot : ∃ t, rest = '.' :: t
        · -- a full stop without a digit after it
          obtain ⟨t, rfl⟩ := hdot
          refine Fails.seq_right (t := t) (str_reads (by simp [afterPrefix])) (Fails.seq_left _ ?_)
          exact Fails.seq_left _ (oneOf_fails (hrest.fraction t rfl))
        · refine Fails.seq_left _ (str_fails_of_ne fun t ht => hdot ⟨t, ?_⟩)
          simpa using ht
      | cons c cs =>
        refine Fails.seq_left _ (str_fails ?_)
        have hmem : c ∈ d :: ds := by
          refine List.mem_cons_of_mem d ((List.dropWhile_sublist Char.isDigit).subset ?_)
          rw [hdrop]
          exact List.mem_cons_self
        simp [afterPrefix, Ne.symm (htext c hmem)]
    · exact Fails.seq_left _ (Fails.seq_left _ (oneOf_fails (by simpa using hd)))

theorem toLower_of_not_upper {c : Char} (h : ¬ (65 ≤ c.toNat ∧ c.toNat ≤ 90)) : c.toLower = c := by
  rw [← Char.toNat_inj, toNat_toLower, if_neg h]

theorem toNat_toUpper (c : Char) :
    c.toUpper.toNat = if 97 ≤ c.toNat ∧ c.toNat ≤ 122 then c.toNat - 32 else c.toNat := by
  have ha : 'a'.val ≤ c.val ↔ 97 ≤ c.toNat := UInt32.le_iff_toNat_le
  have hz : c.val ≤ 'z'.val ↔ c.toNat ≤ 122 := UInt32.le_iff_toNat_le
  show (dite ('a'.val ≤ c.val ∧ c.val ≤ 'z'.val) _ _ : Char).toNat = _
  split
  · rename_i h
    have hrange : 97 ≤ c.toNat ∧ c.toNat ≤ 122 := ⟨ha.1 h.1, hz.1 h.2⟩
    rw [if_pos hrange]
    have hsum : (c.val + ('A'.val - 'a'.val)).toNat = c.val.toNat - 32 := by
      rw [UInt32.toNat_add]
      show (c.toNat + 4294967264) % 4294967296 = c.toNat - 32
      omega
    exact hsum
  · rename_i h
    rw [if_neg fun hrange => h ⟨ha.2 hrange.1, hz.2 hrange.2⟩]

theorem toUpper_toLower (c : Char) : c.toLower.toUpper = c.toUpper := by
  rw [← Char.toNat_inj, toNat_toUpper, toNat_toUpper, toNat_toLower]
  grind

/-- A word in upper case. -/
theorem map_toUpper_of_sameWord {w : String} {text : List Char} (h : sameWord w text = true) :
    text.map Char.toUpper = w.toList.map Char.toUpper := by
  have hmap : ∀ l : List Char, (l.map Char.toLower).map Char.toUpper = l.map Char.toUpper := by
    intro l
    rw [List.map_map]
    congr 1
    funext c
    exact toUpper_toLower c
  have hsame : text.map Char.toLower = w.toList.map Char.toLower := by simpa [sameWord] using h
  rw [← hmap text, hsame, hmap]

/-- A word that starts with another letter does not come first. -/
theorem beginsWith_of_head {w : String} {d : Char} (hw : w.toList.head? = some d) {c : Char}
    (h : d.toLower ≠ c.toLower) (s : List Char) : beginsWith w (c :: s) = false := by
  obtain ⟨cs, hcs⟩ := List.head?_eq_some_iff.1 hw
  simp [beginsWith, hcs, afterPrefix, sameLetter, h]

theorem toLower_of_isDigit {c : Char} (h : c.isDigit = true) : c.toLower = c := by
  simp only [Char.isDigit, Bool.and_eq_true, decide_eq_true_eq, ge_iff_le,
    UInt32.le_iff_toNat_le] at h
  have hcode : 48 ≤ c.toNat ∧ c.toNat ≤ 57 := h
  exact toLower_of_not_upper (by omega)

/-- A word that starts with a letter does not come first where a digit does. -/
theorem beginsWith_of_digit {w : String} {d : Char} (hw : w.toList.head? = some d)
    (hd : d.toLower.isDigit = false) {c : Char} (hc : c.isDigit = true) (s : List Char) :
    beginsWith w (c :: s) = false := by
  apply beginsWith_of_head hw
  rw [toLower_of_isDigit hc]
  rintro hsame
  rw [hsame, hc] at hd
  exact absurd hd (by decide)

theorem literal_reads_integer {text : List Char} (h : IntegerText text) {rest : List Char}
    (hrest : NumberEnds rest) :
    Reads grammar (.call .literal) (text ++ rest)
      [.node .literal text [.node .integerLiteral text []]] rest := by
  have hread := integer_reads h hrest
  obtain ⟨⟨d, ds, hd, hdigit⟩, hchars⟩ := h.shape
  have hreal : Fails grammar (.call .realLiteral) (text ++ rest) := by
    refine real_fails (fun c hc => ?_) hrest
    rintro rfl
    have hdot := hchars '.' hc
    exact absurd hdot (by decide)
  have htime : Fails grammar (.call .timeLiteral) (text ++ rest) := by
    rw [hd]
    refine Fails.call (Fails.seq_left _ (Fails.choice (word_fails ?_) (word_fails ?_)))
    · exact beginsWith_of_digit (d := 'T') (by simp) (by decide) hdigit _
    · exact beginsWith_of_digit (d := 'T') (by simp) (by decide) hdigit _
  have hbody : Reads grammar (ruleBody .literal) (text ++ rest) [.node .integerLiteral text []]
      rest :=
    Reads.choice_right htime (Reads.choice_right hreal (Reads.choice_left _ hread))
  simpa [grammar, ruleShape, Shape.wrap] using Reads.call (r := Rule.literal) hbody

theorem all_isNameChar_of_map {text cs : List Char}
    (h : text.map Char.toLower = cs.map Char.toLower) :
    text.all isNameChar = cs.all isNameChar := by
  have hmap : ∀ l : List Char, (l.map Char.toLower).all isNameChar = l.all isNameChar := by
    intro l
    rw [List.all_map]
    congr 1
    funext c
    exact isNameChar_toLower c
  rw [← hmap text, h, hmap]

/-- A word that ends in `#` is not the start of a name. -/
theorem beginsWith_hash {w : String} {p : List Char} (hw : w.toList = p ++ ['#'])
    (hp : p.all isNameChar = true) {name rest : List Char}
    (hname : name.all isNameChar = true) (hrest : TokenEnds rest) :
    beginsWith w (name ++ rest) = false := by
  by_contra hbegins
  obtain ⟨r, hr⟩ := Option.isSome_iff_exists.1 (Bool.not_eq_false _ ▸ hbegins)
  obtain ⟨text, hs, htext⟩ := afterPrefix_eq_some hr
  rw [hw, List.map_append, List.map_eq_append_iff] at htext
  obtain ⟨p', last, rfl, hp', hlast⟩ := htext
  obtain ⟨c, hc, hhash⟩ := List.map_eq_singleton_iff.1 hlast
  have hchar : c = '#' := by
    have hcode := toNat_toLower c
    have hval : ('#'.toLower).toNat = 35 := by decide
    rw [hhash, hval] at hcode
    rw [← Char.toNat_inj]
    show c.toNat = 35
    split at hcode <;> omega
  have hall : p'.all isNameChar = true := by rw [all_isNameChar_of_map hp', hp]
  refine no_hash hall hname hrest.number.stops (r := r) ?_
  rw [hs, hc, hchar, List.append_assoc]
  rfl

/-- No literal but a truth value starts like a name. -/
theorem valueLiterals_fail {name rest : List Char} (h : isIdentifier name = true)
    (hrest : TokenEnds rest) :
    Fails grammar (.call .timeLiteral) (name ++ rest) ∧
      Fails grammar (.call .realLiteral) (name ++ rest) ∧
      Fails grammar (.call .integerLiteral) (name ++ rest) ∧
      Fails grammar (.call .stringLiteral) (name ++ rest) := by
  have hall := isIdentifier_all h
  obtain ⟨c, cs, rfl, hc⟩ : ∃ c cs, name = c :: cs ∧ isNameStart c = true := by
    cases name with
    | nil => simp [isIdentifier] at h
    | cons c cs => exact ⟨c, cs, rfl, (by simpa [isIdentifier] using h : _ ∧ _).1⟩
  -- each of them starts with a character that starts no name, or with a `#` after letters
  have hother : ∀ d : Char, isNameStart d = false → d ≠ c := by
    rintro d hd rfl
    rw [hc] at hd
    exact absurd hd (by decide)
  have hone : ∀ {s : String} {d : Char}, s.toList.head? = some d → isNameStart d = false →
      Fails grammar (str s) (c :: cs ++ rest) := by
    intro s d hs hd
    obtain ⟨ds, hds⟩ := List.head?_eq_some_iff.1 hs
    apply str_fails
    simp [hds, afterPrefix, hother d hd]
  have hdigit : Stops Char.isDigit (c :: cs ++ rest) := (stops_cons _ _ _).2 (not_isDigit hc)
  refine ⟨?_, ?_, ?_, ?_⟩
  · exact Fails.call (Fails.seq_left _ (Fails.choice
      (word_fails (beginsWith_hash (p := ['T']) (by simp) (by decide) hall hrest))
      (word_fails (beginsWith_hash (p := ['T', 'I', 'M', 'E']) (by simp) (by decide) hall
        hrest))))
  · exact Fails.call (Fails.seq_left _ (Fails.seq_left _ (oneOf_fails hdigit)))
  · exact Fails.call (Fails.choice (Fails.seq_left _ (hone (d := '2') (by simp) (by decide)))
      (Fails.choice (Fails.seq_left _ (hone (d := '8') (by simp) (by decide)))
        (Fails.choice (Fails.seq_left _ (hone (d := '1') (by simp) (by decide)))
          (Fails.seq_left _ (oneOf_fails hdigit)))))
  · exact Fails.call (Fails.choice (Fails.seq_left _ (hone (d := '\'') (by simp) (by decide)))
      (Fails.seq_left _ (hone (d := '"') (by simp) (by decide))))

/-- No literal starts with a name that begins with neither `TRUE` nor `FALSE`. -/
theorem literal_fails {name rest : List Char} (h : isIdentifier name = true)
    (htrue : beginsWith "TRUE" name = false) (hfalse : beginsWith "FALSE" name = false)
    (hrest : TokenEnds rest) : Fails grammar (.call .literal) (name ++ rest) := by
  obtain ⟨htime, hreal, hinteger, hstring⟩ := valueLiterals_fail h hrest
  have hbool : Fails grammar (.call .boolLiteral) (name ++ rest) := by
    refine Fails.call (Fails.choice (word_fails ?_) (word_fails ?_))
    · rw [beginsWith_append (by decide) hrest.name, htrue]
    · rw [beginsWith_append (by decide) hrest.name, hfalse]
  exact Fails.call (Fails.choice htime (Fails.choice hreal (Fails.choice hinteger
    (Fails.choice hstring hbool))))

/-- A name that begins with a truth value is read as that value. -/
theorem literal_reads_bool {name r : List Char} (h : isIdentifier name = true)
    (hbegins : beginsWith "TRUE" name = true ∨ beginsWith "FALSE" name = true)
    (hr : TokenEnds r) :
    ∃ t u v, Reads grammar (.call .literal) (name ++ r)
      [.node .literal u [.node .boolLiteral v []]] t := by
  obtain ⟨htime, hreal, hinteger, hstring⟩ := valueLiterals_fail h hr
  have hword : ∃ t, Reads grammar (ruleBody .boolLiteral) (name ++ r) [] t := by
    by_cases htrue : beginsWith "TRUE" name = true
    · rw [← beginsWith_append (by decide) hr.name] at htrue
      obtain ⟨_, t, -, -, hread⟩ := beginsWith_reads htrue
      exact ⟨t, Reads.choice_left _ hread⟩
    · have hfalse : beginsWith "FALSE" name = true := hbegins.resolve_left htrue
      rw [Bool.not_eq_true, ← beginsWith_append (by decide) hr.name] at htrue
      rw [← beginsWith_append (by decide) hr.name] at hfalse
      obtain ⟨_, t, -, -, hread⟩ := beginsWith_reads hfalse
      exact ⟨t, Reads.choice_right (word_fails htrue) hread⟩
  obtain ⟨t, hword⟩ := hword
  exact ⟨t, _, _, Reads.call (r := Rule.literal) (Reads.choice_right htime (Reads.choice_right hreal
    (Reads.choice_right hinteger (Reads.choice_right hstring
      (Reads.call (r := Rule.boolLiteral) hword)))))⟩

end VirtualPlc.Compiler

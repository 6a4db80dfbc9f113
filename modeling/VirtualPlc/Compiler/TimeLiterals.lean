import VirtualPlc.Compiler.Lexemes

/-!
# Time literals

A time literal is taken apart twice: by the grammar, which only asks for groups of digits and a
unit, and by the decoder, which scans the text again and adds the groups up. The grammar tries the
unit `m` before `ms`; the decoder looks two characters ahead, but knows the prefix in four
spellings only.
-/

set_option autoImplicit false

namespace VirtualPlc.Compiler

open VirtualPlc.Parsing VirtualPlc.Word

/-! ## The decoder -/

/-- One group of a literal: the text of its number, the text of its unit and the unit in
nanoseconds. -/
structure TimeGroup where
  number : List Char
  unit : List Char
  multiplier : Int
deriving DecidableEq, Repr

/-- The text after the prefix. -/
def stripTimePrefix (s : List Char) : Except String (List Char) :=
  match (afterPrefix (· == ·) "T#".toList s).or ((afterPrefix (· == ·) "TIME#".toList s).or
      ((afterPrefix (· == ·) "t#".toList s).or (afterPrefix (· == ·) "time#".toList s))) with
  | some rest => .ok rest
  | none => .error "Invalid time literal prefix"

/-- The nanoseconds of a unit of one character. -/
def singleUnit (c : Char) : Except String Int :=
  if c = 'd' then .ok (24 * 60 * 60 * 1000000000)
  else if c = 'h' then .ok (60 * 60 * 1000000000)
  else if c = 'm' then .ok (60 * 1000000000)
  else if c = 's' then .ok 1000000000
  else .error "Unknown time unit"

/-- The unit that comes next, with the text after it. Units of two characters are looked for
first. -/
def nextUnit : List Char → Except String (List Char × Int × List Char)
  | [] => .error "Missing time unit"
  | [c] => do
    let multiplier ← singleUnit c.toLower
    return ([c], multiplier, [])
  | c :: d :: rest =>
    if c.toLower = 'm' ∧ d.toLower = 's' then .ok ([c, d], 1000000, rest)
    else if c.toLower = 'u' ∧ d.toLower = 's' then .ok ([c, d], 1000, rest)
    else if c.toLower = 'n' ∧ d.toLower = 's' then .ok ([c, d], 1, rest)
    else do
      let multiplier ← singleUnit c.toLower
      return ([c], multiplier, d :: rest)

/-- Characters of a number. -/
def isNumberChar (c : Char) : Bool :=
  c.isDigit || c == '.'

/-- Which texts of such characters are read as an `f64`: at most one full stop and some digit. -/
def isNumber (s : List Char) : Bool :=
  decide (s.count '.' ≤ 1) && s.any Char.isDigit

/-- One pass of the decoder's loop: the next group, if there is one, and the text after it. -/
def nextGroup (s : List Char) : Except String (Option (TimeGroup × List Char)) :=
  let s := s.dropWhile (· == '_')
  if s = [] then .ok none
  else
    let number := s.takeWhile isNumberChar
    if number = [] then .error "Unexpected character in time literal"
    else if isNumber number = false then .error "Invalid number in time"
    else
      match nextUnit (s.dropWhile isNumberChar) with
      | .error e => .error e
      | .ok (unit, multiplier, rest) => .ok (some (⟨number, unit, multiplier⟩, rest))

theorem nextUnit_length {s unit rest : List Char} {multiplier : Int}
    (h : nextUnit s = .ok (unit, multiplier, rest)) : rest.length < s.length := by
  have hsingle : ∀ {c : Char} {t : List Char}, (do
      let m ← singleUnit c.toLower
      return ([c], m, t) : Except String (List Char × Int × List Char)) =
        .ok (unit, multiplier, rest) → rest = t := by
    intro c t hok
    cases hm : singleUnit c.toLower with
    | error e =>
      rw [hm] at hok
      cases hok
    | ok m =>
      rw [hm] at hok
      exact (Prod.mk.inj (Prod.mk.inj (Except.ok.inj hok)).2).2.symm
  cases s with
  | nil => cases h
  | cons c s =>
    cases s with
    | nil =>
      rw [hsingle h]
      simp
    | cons d s =>
      rw [nextUnit] at h
      split at h
      · cases h
        simp only [List.length_cons]
        omega
      split at h
      · cases h
        simp only [List.length_cons]
        omega
      split at h
      · cases h
        simp only [List.length_cons]
        omega
      · rw [hsingle h]
        simp

theorem nextGroup_length {s rest : List Char} {g : TimeGroup}
    (h : nextGroup s = .ok (some (g, rest))) : rest.length < s.length := by
  simp only [nextGroup] at h
  split at h
  · cases h
  split at h
  · cases h
  split at h
  · cases h
  have hdrop : ((s.dropWhile (· == '_')).dropWhile isNumberChar).length ≤ s.length :=
    (List.dropWhile_sublist _).length_le.trans (List.dropWhile_sublist _).length_le
  split at h
  · cases h
  · rename_i hunit
    obtain ⟨-, rfl⟩ := Prod.mk.inj (Option.some.inj (Except.ok.inj h))
    exact lt_of_lt_of_le (nextUnit_length hunit) hdrop

/-- The decoder's loop over the text after the prefix, with the nanoseconds added up so far.
`scaled` is the product of a number and a unit in `f64` arithmetic, as an `i64`. -/
def decodeTime (scaled : List Char → Int → Int) (total : Int) (s : List Char) :
    Except String Int :=
  match _hnext : nextGroup s with
  | .error e => .error e
  | .ok none => .ok total
  | .ok (some (g, rest)) =>
    decodeTime scaled (i64SaturatingAdd total (scaled g.number g.multiplier)) rest
termination_by s.length
decreasing_by exact nextGroup_length ‹_›

/-- The decoder. -/
def parseTimeLiteral (scaled : List Char → Int → Int) (s : List Char) : Except String Int := do
  let rest ← stripTimePrefix s
  decodeTime scaled 0 rest

/-- The groups that the decoder's loop takes one after the other. -/
def timeGroups (s : List Char) : Except String (List TimeGroup) :=
  match _hnext : nextGroup s with
  | .error e => .error e
  | .ok none => .ok []
  | .ok (some (g, rest)) => (timeGroups rest).map (g :: ·)
termination_by s.length
decreasing_by exact nextGroup_length ‹_›

theorem timeGroups_error {s : List Char} {e : String} (h : nextGroup s = .error e) :
    timeGroups s = .error e := by
  rw [timeGroups]
  split <;> simp_all

theorem timeGroups_end {s : List Char} (h : nextGroup s = .ok none) : timeGroups s = .ok [] := by
  rw [timeGroups]
  split <;> simp_all

theorem timeGroups_group {s rest : List Char} {g : TimeGroup}
    (h : nextGroup s = .ok (some (g, rest))) :
    timeGroups s = (timeGroups rest).map (g :: ·) := by
  rw [timeGroups]
  split
  · simp_all
  · simp_all
  · rename_i g' rest' hnext
    rw [h] at hnext
    obtain ⟨rfl, rfl⟩ := Prod.mk.inj (Option.some.inj (Except.ok.inj hnext))
    rfl

/-- The loop gives the sum over its groups. -/
theorem decodeTime_eq (scaled : List Char → Int → Int) (total : Int) (s : List Char) :
    decodeTime scaled total s = (timeGroups s).map fun gs =>
      gs.foldl (fun sum g => i64SaturatingAdd sum (scaled g.number g.multiplier)) total := by
  fun_induction decodeTime scaled total s with
  | case1 total s e hnext =>
    rw [timeGroups_error hnext]
    rfl
  | case2 total s hnext =>
    rw [timeGroups_end hnext]
    rfl
  | case3 total s g rest hnext ih =>
    rw [ih, timeGroups_group hnext]
    cases timeGroups rest <;> rfl

/-! ## The texts of time literals -/

/-- The units. -/
inductive TimeUnit where
  | d
  | h
  | m
  | s
  | ms
  | us
  | ns
deriving DecidableEq, Repr

def TimeUnit.text : TimeUnit → List Char
  | .d => ['d']
  | .h => ['h']
  | .m => ['m']
  | .s => ['s']
  | .ms => ['m', 's']
  | .us => ['u', 's']
  | .ns => ['n', 's']

def TimeUnit.nanoseconds : TimeUnit → Int
  | .d => 24 * 60 * 60 * 1000000000
  | .h => 60 * 60 * 1000000000
  | .m => 60 * 1000000000
  | .s => 1000000000
  | .ms => 1000000
  | .us => 1000
  | .ns => 1

/-- The text of a group: decimal digits and a unit. -/
def groupText (g : List Char × TimeUnit) : List Char :=
  g.1 ++ g.2.text

def groupsText (gs : List (List Char × TimeUnit)) : List Char :=
  gs.flatMap groupText

/-- Every group has decimal digits. -/
def HaveDigits (gs : List (List Char × TimeUnit)) : Prop :=
  ∀ g ∈ gs, g.1 ≠ [] ∧ g.1.all Char.isDigit = true

/-- The groups as texts. -/
def writtenGroups (gs : List (List Char × TimeUnit)) : List (List Char × List Char) :=
  gs.map fun g => (g.1, g.2.text)

theorem groupsText_cons (g : List Char × TimeUnit) (gs : List (List Char × TimeUnit)) :
    groupsText (g :: gs) = g.1 ++ (g.2.text ++ groupsText gs) := by
  simp [groupsText, groupText]

/-- What follows a unit starts with a digit, or nothing follows. -/
theorem groupsText_head {gs : List (List Char × TimeUnit)} (h : HaveDigits gs) :
    ∀ c ∈ (groupsText gs).head?, c.isDigit = true := by
  intro c hc
  cases gs with
  | nil => simp [groupsText] at hc
  | cons g gs =>
    obtain ⟨hne, hdigits⟩ := h g List.mem_cons_self
    rw [groupsText_cons, List.head?_append_of_ne_nil _ hne] at hc
    exact List.all_eq_true.1 hdigits c (List.mem_of_mem_head? hc)

/-! ## The decoder takes the groups as they were written -/

theorem unit_head (u : TimeUnit) :
    ∃ c s, u.text = c :: s ∧ isNumberChar c = false ∧ c.isDigit = false := by
  cases u <;> exact ⟨_, _, rfl, by decide, by decide⟩

theorem nextUnit_text (u : TimeUnit) {rest : List Char}
    (h : ∀ c ∈ rest.head?, c.isDigit = true) :
    nextUnit (u.text ++ rest) = .ok (u.text, u.nanoseconds, rest) := by
  cases rest with
  | nil => cases u <;> rfl
  | cons c rest =>
    have hdigit : c.isDigit = true := h c rfl
    have hne : c.toLower ≠ 's' := by
      rw [toLower_of_isDigit hdigit]
      rintro rfl
      exact absurd hdigit (by decide)
    cases u <;> simp [TimeUnit.text, TimeUnit.nanoseconds, nextUnit, singleUnit, hne]

/-- The loop takes the first group. -/
theorem nextGroup_text {g : List Char × TimeUnit} {gs : List (List Char × TimeUnit)}
    (h : HaveDigits (g :: gs)) : nextGroup (groupsText (g :: gs)) =
      .ok (some (⟨g.1, g.2.text, g.2.nanoseconds⟩, groupsText gs)) := by
  obtain ⟨ds, u⟩ := g
  obtain ⟨hne, hdigits⟩ := h (ds, u) List.mem_cons_self
  have hrest : HaveDigits gs := fun g hg => h g (List.mem_cons_of_mem _ hg)
  obtain ⟨d, ds, rfl⟩ := List.exists_cons_of_ne_nil hne
  obtain ⟨c, t, hunit, hc, -⟩ := unit_head u
  have hd : d.isDigit = true := List.all_eq_true.1 hdigits d List.mem_cons_self
  have hnumber : ∀ e ∈ d :: ds, isNumberChar e = true := by
    intro e he
    rw [isNumberChar, List.all_eq_true.1 hdigits e he, Bool.true_or]
  have hunderscore : (groupsText ((d :: ds, u) :: gs)).dropWhile (· == '_') =
      groupsText ((d :: ds, u) :: gs) := by
    have hother : (d == '_') = false := by
      rw [beq_eq_false_iff_ne]
      rintro rfl
      exact absurd hd (by decide)
    rw [groupsText_cons, List.cons_append, List.dropWhile_cons_of_neg (by simp [hother])]
  -- the number ends where the unit begins: no unit starts with a digit or a point
  have htake : (groupsText ((d :: ds, u) :: gs)).takeWhile isNumberChar = d :: ds := by
    have hstop : (u.text ++ groupsText gs).takeWhile isNumberChar = [] := by
      rw [hunit, List.cons_append, List.takeWhile_cons_of_neg (by simp [hc])]
    rw [groupsText_cons, List.takeWhile_append_of_pos hnumber, hstop, List.append_nil]
  have hdrop : (groupsText ((d :: ds, u) :: gs)).dropWhile isNumberChar =
      u.text ++ groupsText gs := by
    rw [groupsText_cons, List.dropWhile_append_of_pos hnumber, hunit, List.cons_append,
      List.dropWhile_cons_of_neg (by simp [hc])]
  have hvalid : isNumber (d :: ds) = true := by
    have hcount : (d :: ds).count '.' = 0 := by
      rw [List.count_eq_zero]
      intro hdot
      exact absurd (List.all_eq_true.1 hdigits '.' hdot) (by decide)
    rw [isNumber, hcount, List.any_cons, hd]
    rfl
  have hsome : groupsText ((d :: ds, u) :: gs) ≠ [] := by simp [groupsText_cons]
  simp only [nextGroup, hunderscore, htake, hdrop, hvalid, hsome, if_false, reduceCtorEq,
    nextUnit_text u (groupsText_head hrest)]

theorem timeGroups_text {gs : List (List Char × TimeUnit)} (h : HaveDigits gs) :
    timeGroups (groupsText gs) =
      .ok (gs.map fun g => ⟨g.1, g.2.text, g.2.nanoseconds⟩) := by
  induction gs with
  | nil => exact timeGroups_end rfl
  | cons g gs ih =>
    rw [timeGroups_group (nextGroup_text h), ih fun g hg => h g (List.mem_cons_of_mem _ hg)]
    rfl

/-! ## The grammar ends at the first unit `ms` -/

/-- The digits of a group. -/
def timeNumber : Peg Rule := some1 (oneOf Char.isDigit)

/-- The unit of a group. -/
def timeUnit : Peg Rule :=
  firstOf [str "d", str "h", str "m", str "s", str "ms", str "us", str "ns"]

/-- What the grammar leaves of a unit. -/
def TimeUnit.left : TimeUnit → List Char
  | .ms => ['s']
  | _ => []

theorem timeNumber_reads {ds rest : List Char} (hne : ds ≠ []) (hds : ds.all Char.isDigit = true)
    (hrest : Stops Char.isDigit rest) : Reads grammar timeNumber (ds ++ rest) [] rest := by
  obtain ⟨d, ds, rfl⟩ := List.exists_cons_of_ne_nil hne
  rw [List.all_cons, Bool.and_eq_true] at hds
  exact Reads.seq (oneOf_reads _ hds.1) (Reads.star_class (fun c s hc => oneOf_reads s hc)
    (fun s hs => oneOf_fails hs) hrest hds.2)

theorem timeUnit_reads (u : TimeUnit) (rest : List Char) :
    Reads grammar timeUnit (u.text ++ rest) [] (u.left ++ rest) := by
  cases u <;>
    simp [Reads, timeUnit, firstOf, str, TimeUnit.text, TimeUnit.left, parse_choice,
      parse_terminal, Terminal.outcome, Terminal.strip, afterPrefix]

theorem unit_stops (u : TimeUnit) (rest : List Char) : Stops Char.isDigit (u.text ++ rest) := by
  obtain ⟨c, t, htext, -, hc⟩ := unit_head u
  rw [htext]
  exact (stops_cons _ _ _).2 hc

/-- A group is read up to what is left of its unit. -/
theorem group_reads {g : List Char × TimeUnit} (h : g.1 ≠ [] ∧ g.1.all Char.isDigit = true)
    (rest : List Char) :
    Reads grammar timeNumber (g.1 ++ (g.2.text ++ rest)) [] (g.2.text ++ rest) ∧
      Reads grammar timeUnit (g.2.text ++ rest) [] (g.2.left ++ rest) :=
  ⟨timeNumber_reads h.1 h.2 (unit_stops g.2 rest), timeUnit_reads g.2 rest⟩

/-- No group starts where no digit comes. -/
theorem group_fails {s : List Char} (h : Stops Char.isDigit s) :
    Fails grammar (.seq timeNumber timeUnit) s :=
  Fails.seq_left _ (Fails.seq_left _ (oneOf_fails h))

/-- Whether a group has the unit `ms`. -/
def hasMillis (gs : List (List Char × TimeUnit)) : Bool :=
  gs.any fun g => g.2 == .ms

/-- Without that unit the iterations of the rule are the groups. -/
theorem repeats_groups {gs : List (List Char × TimeUnit)} (h : HaveDigits gs)
    (hunits : hasMillis gs = false) :
    Repeats grammar timeNumber timeUnit (groupsText gs) (writtenGroups gs) [] := by
  induction gs with
  | nil => exact .stop (group_fails (stops_nil _))
  | cons g gs ih =>
    rw [hasMillis, List.any_cons, Bool.or_eq_false_iff] at hunits
    obtain ⟨hnumber, hunit⟩ := group_reads (h g List.mem_cons_self) (groupsText gs)
    have hleft : g.2.left = [] := by
      cases hu : g.2 with
      | ms =>
        rw [hu] at hunits
        exact absurd hunits.1 (by decide)
      | _ => rfl
    rw [hleft, List.nil_append] at hunit
    have hrest := ih (fun g hg => h g (List.mem_cons_of_mem _ hg)) hunits.2
    have hstep := Repeats.step hnumber hunit hrest
    rwa [consumed_append, consumed_append, ← groupsText_cons] at hstep

/-- With it the rule ends inside the unit. -/
theorem repetition_cut {gs : List (List Char × TimeUnit)} (h : HaveDigits gs)
    (hunits : hasMillis gs = true) :
    ∃ ps t, Reads grammar (.star (.seq timeNumber timeUnit)) (groupsText gs) ps t ∧ t ≠ [] := by
  induction gs with
  | nil => exact absurd hunits (by decide)
  | cons g gs ih =>
    rw [hasMillis, List.any_cons, Bool.or_eq_true, beq_iff_eq] at hunits
    obtain ⟨hnumber, hunit⟩ := group_reads (h g List.mem_cons_self) (groupsText gs)
    have hgroup := Reads.seq hnumber hunit
    rw [← groupsText_cons] at hgroup
    by_cases hms : g.2 = .ms
    · -- the `s` is left, where no digit comes
      rw [hms] at hgroup
      exact ⟨_, _, Reads.star_step hgroup (Reads.star_stop (group_fails
        ((stops_cons _ _ _).2 (by decide)))), List.cons_ne_nil _ _⟩
    · have hleft : g.2.left = [] := by
        cases hu : g.2 <;> first | rfl | exact absurd hu hms
      rw [hleft, List.nil_append] at hgroup
      obtain ⟨ps, t, hread, ht⟩ :=
        ih (fun g hg => h g (List.mem_cons_of_mem _ hg)) (hunits.resolve_left hms)
      exact ⟨_, t, Reads.star_step hgroup hread, ht⟩

/-! ## Grammar and decoder -/

/-- The prefix of a literal, as the grammar reads it. -/
def timePrefix : Peg Rule := firstOf [word "T#", word "TIME#"]

/-- Whether the text is a prefix, in any case of its letters. -/
def isTimePrefix (pre : List Char) : Bool :=
  sameWord "T#" pre || sameWord "TIME#" pre

theorem timePrefix_reads {pre : List Char} (h : isTimePrefix pre = true) (rest : List Char) :
    Reads grammar timePrefix (pre ++ rest) [] rest := by
  rw [isTimePrefix, Bool.or_eq_true] at h
  by_cases hshort : sameWord "T#" pre = true
  · exact Reads.choice_left _ (word_reads hshort rest)
  · refine Reads.choice_right (word_fails ?_) (word_reads (h.resolve_left hshort) rest)
    -- the second character is an `i`
    have hmap : pre.map Char.toLower = "TIME#".toList.map Char.toLower := by
      simpa [sameWord] using h.resolve_left hshort
    rcases pre with _ | ⟨c, _ | ⟨d, pre⟩⟩
    · simp at hmap
    · simp at hmap
    · simp only [List.map_cons] at hmap
      have hsecond : d.toLower = 'i' := (List.cons.inj (List.cons.inj hmap).2).1
      simp [beginsWith, afterPrefix, sameLetter, hsecond]

/-- The rule reads the whole text, and its iterations take the groups `gs`. -/
def GrammarSplits (s : List Char) (gs : List (List Char × List Char)) : Prop :=
  (∃ p, parse grammar (.call .timeLiteral) s = some (.ok [p] [])) ∧
  ∃ rest, Reads grammar timePrefix s [] rest ∧
    Repeats grammar timeNumber timeUnit rest gs []

/-- The decoder accepts the text and takes the groups `gs`. -/
def DecoderSplits (scaled : List Char → Int → Int) (s : List Char)
    (gs : List (List Char × List Char)) : Prop :=
  (∃ ns, parseTimeLiteral scaled s = .ok ns) ∧
  ∃ rest taken, stripTimePrefix s = .ok rest ∧ timeGroups rest = .ok taken ∧
    taken.map (fun g => (g.number, g.unit)) = gs

/-- The spellings of the prefix that the decoder knows. -/
def isDecodedPrefix (pre : List Char) : Bool :=
  pre == "T#".toList || pre == "TIME#".toList || pre == "t#".toList || pre == "time#".toList

theorem stripTimePrefix_of_decoded {pre : List Char} (h : isDecodedPrefix pre = true)
    (rest : List Char) : stripTimePrefix (pre ++ rest) = .ok rest := by
  simp only [isDecodedPrefix, Bool.or_eq_true, beq_iff_eq] at h
  rcases h with ((rfl | rfl) | rfl) | rfl <;> simp [stripTimePrefix, afterPrefix]

/-- A text that starts with another spelling of the prefix starts with none of the four. -/
theorem afterPrefix_other {pre w : List Char} (h : isTimePrefix pre = true) (hne : pre ≠ w)
    (hw : w = "T#".toList ∨ w = "TIME#".toList ∨ w = "t#".toList ∨ w = "time#".toList)
    (rest : List Char) : afterPrefix (· == ·) w (pre ++ rest) = none := by
  cases hstrip : afterPrefix (· == ·) w (pre ++ rest) with
  | none => rfl
  | some r =>
    exfalso
    have heq := afterPrefix_exact hstrip
    have hlower := congrArg (List.map Char.toLower) heq
    rw [List.map_append, List.map_append] at hlower
    have hsame : ∀ {v : List Char}, pre.map Char.toLower = v → w.length = v.length → False := by
      intro v hv hlength
      refine hne (List.append_inj heq ?_).1
      rw [hlength, ← hv, List.length_map]
    rw [isTimePrefix, Bool.or_eq_true, sameWord, sameWord, beq_iff_eq, beq_iff_eq] at h
    -- of another length, the second characters differ
    rcases h with h | h
    · rw [h] at hlower
      rcases hw with rfl | rfl | rfl | rfl
      · exact hsame h (by simp)
      · exact absurd hlower (by simp)
      · exact hsame h (by simp)
      · exact absurd hlower (by simp)
    · rw [h] at hlower
      rcases hw with rfl | rfl | rfl | rfl
      · exact absurd hlower (by simp)
      · exact hsame h (by simp)
      · exact absurd hlower (by simp)
      · exact hsame h (by simp)

theorem stripTimePrefix_other {pre : List Char} (hpre : isTimePrefix pre = true)
    (h : isDecodedPrefix pre = false) (rest : List Char) :
    stripTimePrefix (pre ++ rest) = .error "Invalid time literal prefix" := by
  simp only [isDecodedPrefix, Bool.or_eq_false_iff, beq_eq_false_iff_ne] at h
  obtain ⟨⟨⟨hT, hTIME⟩, ht⟩, htime⟩ := h
  rw [stripTimePrefix, afterPrefix_other hpre hT (.inl rfl),
    afterPrefix_other hpre hTIME (.inr (.inl rfl)),
    afterPrefix_other hpre ht (.inr (.inr (.inl rfl))),
    afterPrefix_other hpre htime (.inr (.inr (.inr rfl)))]
  rfl

/-- The text of a literal. -/
def timeText (pre : List Char) (gs : List (List Char × TimeUnit)) : List Char :=
  pre ++ groupsText gs

/-- Without the unit `ms` the rule reads the whole literal. -/
theorem timeLiteral_reads {pre : List Char} {gs : List (List Char × TimeUnit)}
    (hpre : isTimePrefix pre = true) (hne : gs ≠ []) (hgs : HaveDigits gs)
    (hunits : hasMillis gs = false) :
    ∃ p, Reads grammar (.call .timeLiteral) (timeText pre gs) [p] [] := by
  obtain ⟨g, gs, rfl⟩ := List.exists_cons_of_ne_nil hne
  obtain ⟨ps, hread⟩ := (repeats_groups hgs hunits).reads_some
  have hvalue := Reads.call (r := Rule.timeValue) hread
  exact ⟨_, Reads.call (r := Rule.timeLiteral) (Reads.seq (timePrefix_reads hpre _) hvalue)⟩

/-- With it the rule ends before the end of the literal. -/
theorem timeLiteral_cut {pre : List Char} {gs : List (List Char × TimeUnit)}
    (hpre : isTimePrefix pre = true) (hgs : HaveDigits gs) (hunits : hasMillis gs = true)
    {qs : List Node} {t : List Char}
    (h : Reads grammar (.call .timeLiteral) (timeText pre gs) qs t) : t ≠ [] := by
  obtain ⟨_, u, hcut, hu⟩ := repetition_cut hgs hunits
  obtain ⟨_, hbody, -⟩ := h.call_inv
  obtain ⟨_, r, _, hfront, hvalue, -⟩ := hbody.seq_inv
  obtain ⟨-, rfl⟩ := hfront.unique (timePrefix_reads hpre _)
  obtain ⟨_, hgroups, -⟩ := hvalue.call_inv
  obtain ⟨_, v, _, hfirst, hrest, -⟩ := hgroups.seq_inv
  -- one iteration and the others are a repetition
  obtain ⟨-, rfl⟩ := (Reads.star_step hfirst hrest).unique hcut
  exact hu

/-- The literal is read whole by the grammar, accepted by the decoder and taken apart into the same
groups by both. -/
def Agree (scaled : List Char → Int → Int) (s : List Char) : Prop :=
  ∃ gs, GrammarSplits s gs ∧ DecoderSplits scaled s gs

/-- Grammar and decoder agree on a literal exactly when no group has the unit `ms` and the prefix is
spelled in one of four ways. -/
theorem agree_iff (scaled : List Char → Int → Int) (pre : List Char)
    (gs : List (List Char × TimeUnit)) (hpre : isTimePrefix pre = true) (hne : gs ≠ [])
    (hgs : HaveDigits gs) :
    Agree scaled (timeText pre gs) ↔ isDecodedPrefix pre = true ∧ hasMillis gs = false := by
  constructor
  · rintro ⟨_, ⟨⟨p, hwhole⟩, -⟩, -, rest, _, hstrip, -⟩
    refine ⟨?_, ?_⟩
    · by_contra hother
      rw [timeText, stripTimePrefix_other hpre (by simpa using hother)] at hstrip
      cases hstrip
    · by_contra hmillis
      exact timeLiteral_cut hpre hgs (by simpa using hmillis) hwhole rfl
  · rintro ⟨hdecoded, hunits⟩
    have hstrip := stripTimePrefix_of_decoded hdecoded (groupsText gs)
    have hgroups := timeGroups_text hgs
    have haccepted : ∃ ns, parseTimeLiteral scaled (timeText pre gs) = .ok ns := by
      rw [parseTimeLiteral, timeText, hstrip]
      show ∃ ns, decodeTime scaled 0 (groupsText gs) = .ok ns
      rw [decodeTime_eq, hgroups]
      exact ⟨_, rfl⟩
    refine ⟨writtenGroups gs, ⟨timeLiteral_reads hpre hne hgs hunits, groupsText gs,
      timePrefix_reads hpre _, repeats_groups hgs hunits⟩, haccepted, groupsText gs, _, hstrip,
      hgroups, ?_⟩
    rw [writtenGroups, List.map_map]
    rfl

/-- The product on numbers without a fraction that `f64` represents exactly. -/
def wholeProduct (number : List Char) (multiplier : Int) : Int :=
  (number.foldl (fun v c => v * 10 + digitValue c) 0 : Nat) * multiplier

/-- The literal `TIME#1h30m`. -/
theorem agree_minutes :
    Agree wholeProduct (timeText "TIME#".toList [(['1'], .h), (['3', '0'], .m)]) := by
  have hdigits : HaveDigits [(['1'], TimeUnit.h), (['3', '0'], .m)] := by
    simp [HaveDigits, Char.isDigit]
  exact (agree_iff wholeProduct "TIME#".toList [(['1'], .h), (['3', '0'], .m)] (by decide)
    (by decide) hdigits).2 ⟨by decide, by decide⟩

/-- The literal `T#100ms` is not read whole by the grammar, and `Time#1s` not accepted by the
decoder. -/
theorem millis_cut :
    (∀ p, parse grammar (.call .timeLiteral) "T#100ms".toList ≠ some (.ok [p] [])) ∧
    parseTimeLiteral wholeProduct "Time#1s".toList = .error "Invalid time literal prefix" ∧
    ¬ Agree wholeProduct "T#100ms".toList ∧ ¬ Agree wholeProduct "Time#1s".toList := by
  have hcut : ∀ p, parse grammar (.call .timeLiteral) "T#100ms".toList ≠ some (.ok [p] []) := by
    intro p hwhole
    have hread : Reads grammar (.call .timeLiteral) "T#100ms".toList _ ['s'] :=
      parse_of_run (n := 40) rfl
    exact absurd (hread.unique hwhole).2 (by decide)
  have hstrip : stripTimePrefix "Time#1s".toList = .error "Invalid time literal prefix" := by decide
  refine ⟨hcut, ?_, ?_, ?_⟩
  · rw [parseTimeLiteral, hstrip]
    rfl
  · rintro ⟨_, ⟨⟨p, hwhole⟩, -⟩, -⟩
    exact hcut p hwhole
  · rintro ⟨_, -, -, rest, _, hrest, -⟩
    rw [hstrip] at hrest
    cases hrest

end VirtualPlc.Compiler

import Mathlib.Data.Nat.Find
import Mathlib.Order.Filter.AtTopBot.Basic

/-!
# Parsing expression grammars

A parsing expression reads a prefix of its input: a sequence reads one part after the other, a
choice tries its second part only where the first fails, a repetition reads as long as its body
succeeds. Rules call each other by name, and a rule may leave a node in the parse tree.

`run` executes an expression with a bound on the nested steps, and `parse` is what `run` gives from
some bound on. The equations of `parse` are the semantics of each construct. `parse_total` says
that a grammar without left recursion and without a repetition of an expression that may read
nothing gives a result on every input.
-/

set_option autoImplicit false

namespace VirtualPlc.Parsing

/-! ## Expressions and trees -/

/-- What is compared with the input directly. -/
inductive Terminal where
  | exact (cs : List Char)
  | anyCase (cs : List Char)
  | satisfying (p : Char → Bool)

/-- Equality of two characters up to the case of ASCII letters. -/
def sameLetter (c d : Char) : Bool :=
  c.toLower == d.toLower

/-- The input after the given characters, compared by `same`. -/
def afterPrefix (same : Char → Char → Bool) : List Char → List Char → Option (List Char)
  | [], s => some s
  | _ :: _, [] => none
  | c :: cs, d :: s => if same c d then afterPrefix same cs s else none

/-- The input after a terminal. -/
def Terminal.strip : Terminal → List Char → Option (List Char)
  | .exact cs, s => afterPrefix (· == ·) cs s
  | .anyCase cs, s => afterPrefix sameLetter cs s
  | .satisfying _, [] => none
  | .satisfying p, c :: s => if p c then some s else none

/-- Parsing expressions over rules named by `ρ`. -/
inductive Peg (ρ : Type) where
  | terminal (t : Terminal)
  | seq (a b : Peg ρ)
  | choice (a b : Peg ρ)
  | star (a : Peg ρ)
  | neg (a : Peg ρ)
  | call (r : ρ)

/-- Nodes of a parse tree: a rule, the text it read and the nodes inside. -/
inductive Pair (ρ : Type) where
  | node (rule : ρ) (text : List Char) (inner : List (Pair ρ))

namespace Pair

variable {ρ : Type}

def rule : Pair ρ → ρ
  | .node r _ _ => r

def text : Pair ρ → List Char
  | .node _ t _ => t

def inner : Pair ρ → List (Pair ρ)
  | .node _ _ ps => ps

/-- The text as a string. -/
def asStr (p : Pair ρ) : String := String.ofList p.text

@[simp]
theorem rule_node (r : ρ) (t : List Char) (ps : List (Pair ρ)) : (node r t ps).rule = r := rfl

@[simp]
theorem text_node (r : ρ) (t : List Char) (ps : List (Pair ρ)) : (node r t ps).text = t := rfl

@[simp]
theorem inner_node (r : ρ) (t : List Char) (ps : List (Pair ρ)) : (node r t ps).inner = ps := rfl

@[simp]
theorem asStr_node (r : ρ) (t : List Char) (ps : List (Pair ρ)) :
    (node r t ps).asStr = String.ofList t := rfl

end Pair

/-- What a rule leaves in the tree: a node, only its inner nodes, or a node with nothing inside. -/
inductive Shape where
  | visible
  | silent
  | token
deriving DecidableEq

/-- The nodes that a rule leaves. -/
def Shape.wrap {ρ : Type} : Shape → ρ → List Char → List (Pair ρ) → List (Pair ρ)
  | .visible, r, text, inner => [.node r text inner]
  | .silent, _, _, inner => inner
  | .token, r, text, _ => [.node r text []]

namespace Peg

variable {ρ : Type}

/-- Reads nothing. -/
def empty : Peg ρ := .terminal (.exact [])

/-- An optional part. -/
def opt (a : Peg ρ) : Peg ρ := .choice a empty

/-- Whether the expression may read nothing, given this for every rule. -/
def nullable (null : ρ → Bool) : Peg ρ → Bool
  | .terminal (.exact cs) => cs.isEmpty
  | .terminal (.anyCase cs) => cs.isEmpty
  | .terminal (.satisfying _) => false
  | .seq a b => a.nullable null && b.nullable null
  | .choice a b => a.nullable null || b.nullable null
  | .star _ => true
  | .neg _ => true
  | .call r => null r

/-- No repetition has a body that may read nothing, and every rule that is called before anything
is read has a rank below `k`. -/
def guarded (null : ρ → Bool) (rank : ρ → Nat) (bound : Nat) : Nat → Peg ρ → Bool
  | _, .terminal _ => true
  | k, .seq a b =>
    a.guarded null rank bound k && b.guarded null rank bound (if a.nullable null then k else bound)
  | k, .choice a b => a.guarded null rank bound k && b.guarded null rank bound k
  | k, .star a => a.guarded null rank bound k && !a.nullable null
  | k, .neg a => a.guarded null rank bound k
  | k, .call r => decide (rank r < k)

end Peg

/-- Grammars whose rules can be ordered so that no rule calls itself before it has read
something. -/
structure Grammar (ρ : Type) where
  shape : ρ → Shape
  body : ρ → Peg ρ
  nullable : ρ → Bool
  rank : ρ → Nat
  bound : Nat
  rank_lt : ∀ r, rank r < bound
  nullable_body : ∀ r, (body r).nullable nullable = true → nullable r = true
  guarded_body : ∀ r, (body r).guarded nullable rank bound (rank r) = true

/-! ## Running an expression -/

/-- What an expression makes of its input. -/
inductive Outcome (ρ : Type) where
  | fail
  | ok (pairs : List (Pair ρ)) (rest : List Char)

section Running

variable {ρ : Type}

/-- Continues after an expression, with `failed` where it failed. -/
def after (o : Option (Outcome ρ)) (failed : Option (Outcome ρ))
    (continued : List (Pair ρ) → List Char → Option (Outcome ρ)) : Option (Outcome ρ) :=
  match o with
  | none => none
  | some .fail => failed
  | some (.ok pairs rest) => continued pairs rest

@[simp]
theorem after_none (failed : Option (Outcome ρ))
    (continued : List (Pair ρ) → List Char → Option (Outcome ρ)) :
    after none failed continued = none := rfl

@[simp]
theorem after_fail (failed : Option (Outcome ρ))
    (continued : List (Pair ρ) → List Char → Option (Outcome ρ)) :
    after (some .fail) failed continued = failed := rfl

@[simp]
theorem after_ok (pairs : List (Pair ρ)) (rest : List Char) (failed : Option (Outcome ρ))
    (continued : List (Pair ρ) → List Char → Option (Outcome ρ)) :
    after (some (.ok pairs rest)) failed continued = continued pairs rest := rfl

/-- The part of `s` that was read where `rest` remains. -/
def consumed (s rest : List Char) : List Char :=
  s.take (s.length - rest.length)

@[simp]
theorem consumed_append (text rest : List Char) : consumed (text ++ rest) rest = text := by
  simp [consumed]

@[simp]
theorem consumed_cons_append (c : Char) (text rest : List Char) :
    consumed (c :: (text ++ rest)) rest = c :: text :=
  consumed_append (c :: text) rest

@[simp]
theorem consumed_nil (text : List Char) : consumed text [] = text := by
  simp [consumed]

/-- The outcome of a terminal. -/
def Terminal.outcome (t : Terminal) (s : List Char) : Outcome ρ :=
  match t.strip s with
  | none => .fail
  | some rest => .ok [] rest

/-- Runs an expression with at most `n` nested steps. -/
def run (G : Grammar ρ) : Nat → Peg ρ → List Char → Option (Outcome ρ)
  | 0, _, _ => none
  | _ + 1, .terminal t, s => some (t.outcome s)
  | n + 1, .seq a b, s =>
    after (run G n a s) (some .fail) fun ps t =>
      after (run G n b t) (some .fail) fun qs u => some (.ok (ps ++ qs) u)
  | n + 1, .choice a b, s => after (run G n a s) (run G n b s) fun ps t => some (.ok ps t)
  | n + 1, .star a, s =>
    after (run G n a s) (some (.ok [] s)) fun ps t =>
      after (run G n (.star a) t) (some .fail) fun qs u => some (.ok (ps ++ qs) u)
  | n + 1, .neg a, s => after (run G n a s) (some (.ok [] s)) fun _ _ => some .fail
  | n + 1, .call r, s =>
    after (run G n (G.body r) s) (some .fail) fun ps t =>
      some (.ok ((G.shape r).wrap r (consumed s t) ps) t)

end Running

/-! ## The result of an expression -/

section Limit

open Filter

variable {ρ : Type} {G : Grammar ρ}

theorem after_mono {o o' failed failed' : Option (Outcome ρ)}
    {continued continued' : List (Pair ρ) → List Char → Option (Outcome ρ)}
    (ho : ∀ r, o = some r → o' = some r) (hf : ∀ r, failed = some r → failed' = some r)
    (hc : ∀ ps t r, continued ps t = some r → continued' ps t = some r) :
    ∀ r, after o failed continued = some r → after o' failed' continued' = some r := by
  intro r h
  cases hout : o with
  | none => simp [hout] at h
  | some out =>
    rw [ho out hout]
    rw [hout] at h
    cases out with
    | fail => exact hf r h
    | ok ps t => exact hc ps t r h

/-- A larger bound on the steps keeps a result. -/
theorem run_succ (n : Nat) : ∀ (e : Peg ρ) (s : List Char) (r : Outcome ρ),
    run G n e s = some r → run G (n + 1) e s = some r := by
  induction n with
  | zero =>
    intro e s r h
    simp [run] at h
  | succ n ih =>
    intro e s r h
    cases e with
    | terminal t => exact h
    | seq a b =>
      refine after_mono (ih a s) (fun _ h => h) (fun ps t => ?_) r h
      exact after_mono (ih b t) (fun _ h => h) fun _ _ _ h => h
    | choice a b => exact after_mono (ih a s) (ih b s) (fun _ _ _ h => h) r h
    | star a =>
      refine after_mono (ih a s) (fun _ h => h) (fun ps t => ?_) r h
      exact after_mono (ih (.star a) t) (fun _ h => h) fun _ _ _ h => h
    | neg a => exact after_mono (ih a s) (fun _ h => h) (fun _ _ _ h => h) r h
    | call q => exact after_mono (ih (G.body q) s) (fun _ h => h) (fun _ _ _ h => h) r h

theorem run_mono {n m : Nat} (hle : n ≤ m) {e : Peg ρ} {s : List Char} {r : Outcome ρ}
    (h : run G n e s = some r) : run G m e s = some r := by
  induction hle with
  | refl => exact h
  | step _ ih => exact run_succ _ e s r ih

open Classical in
/-- The result of an expression, `none` where no bound on the steps gives one. -/
noncomputable def parse (G : Grammar ρ) (e : Peg ρ) (s : List Char) : Option (Outcome ρ) :=
  if h : ∃ n, (run G n e s).isSome then run G (Nat.find h) e s else none

/-- From some bound on, a run gives the result. -/
theorem eventually_run (G : Grammar ρ) (e : Peg ρ) (s : List Char) :
    ∀ᶠ n in atTop, run G n e s = parse G e s := by
  classical
  rw [parse]
  split
  · rename_i h
    obtain ⟨r, hr⟩ := Option.isSome_iff_exists.1 (Nat.find_spec h)
    filter_upwards [eventually_ge_atTop (Nat.find h)] with n hn
    rw [hr]
    exact run_mono hn hr
  · rename_i h
    refine Eventually.of_forall fun n => ?_
    cases hrun : run G n e s with
    | none => rfl
    | some r => exact absurd ⟨n, by rw [hrun]; rfl⟩ h

/-- A run that ends gives the result. -/
theorem parse_of_run {n : Nat} {e : Peg ρ} {s : List Char} {r : Outcome ρ}
    (h : run G n e s = some r) : parse G e s = some r := by
  obtain ⟨m, hm, hle⟩ := ((eventually_run G e s).and (eventually_ge_atTop n)).exists
  rw [← hm]
  exact run_mono hle h

theorem exists_run_of_parse {e : Peg ρ} {s : List Char} {r : Outcome ρ}
    (h : parse G e s = some r) : ∃ n, run G n e s = some r := by
  obtain ⟨n, hn⟩ := (eventually_run G e s).exists
  exact ⟨n, hn.trans h⟩

/-- A continuation has its result from some bound on. -/
theorem eventually_after {o failed : Nat → Option (Outcome ρ)}
    {continued : Nat → List (Pair ρ) → List Char → Option (Outcome ρ)}
    {o' failed' : Option (Outcome ρ)}
    {continued' : List (Pair ρ) → List Char → Option (Outcome ρ)}
    (ho : ∀ᶠ n in atTop, o n = o') (hf : ∀ᶠ n in atTop, failed n = failed')
    (hc : ∀ ps t, ∀ᶠ n in atTop, continued n ps t = continued' ps t) :
    ∀ᶠ n in atTop, after (o n) (failed n) (continued n) = after o' failed' continued' := by
  cases o' with
  | none => filter_upwards [ho] with n hn using by rw [hn]; rfl
  | some out =>
    cases out with
    | fail => filter_upwards [ho, hf] with n hn hfail using by rw [hn, hfail]; rfl
    | ok ps t => filter_upwards [ho, hc ps t] with n hn hcont using by rw [hn]; exact hcont

/-- The result of an expression whose runs settle on `r`. -/
theorem parse_eq_of_eventually {e : Peg ρ} {s : List Char} {r : Option (Outcome ρ)}
    (h : ∀ᶠ n in atTop, run G (n + 1) e s = r) : parse G e s = r := by
  have hshift : ∀ᶠ n in atTop, run G (n + 1) e s = parse G e s :=
    (tendsto_add_atTop_nat 1).eventually (eventually_run G e s)
  obtain ⟨n, hn, hr⟩ := (hshift.and h).exists
  exact hn.symm.trans hr

end Limit

/-! ## The equations of each construct -/

section Equations

open Filter

variable {ρ : Type} {G : Grammar ρ}

theorem parse_terminal (t : Terminal) (s : List Char) :
    parse G (.terminal t) s = some (t.outcome s) :=
  parse_eq_of_eventually (Eventually.of_forall fun _ => rfl)

theorem parse_seq (a b : Peg ρ) (s : List Char) :
    parse G (.seq a b) s = after (parse G a s) (some .fail) fun ps t =>
      after (parse G b t) (some .fail) fun qs u => some (.ok (ps ++ qs) u) := by
  apply parse_eq_of_eventually
  refine eventually_after (eventually_run G a s) (Eventually.of_forall fun _ => rfl) fun ps t => ?_
  exact eventually_after (eventually_run G b t) (Eventually.of_forall fun _ => rfl)
    fun _ _ => Eventually.of_forall fun _ => rfl

theorem parse_choice (a b : Peg ρ) (s : List Char) :
    parse G (.choice a b) s =
      after (parse G a s) (parse G b s) fun ps t => some (.ok ps t) := by
  apply parse_eq_of_eventually
  exact eventually_after (eventually_run G a s) (eventually_run G b s)
    fun _ _ => Eventually.of_forall fun _ => rfl

theorem parse_star (a : Peg ρ) (s : List Char) :
    parse G (.star a) s = after (parse G a s) (some (.ok [] s)) fun ps t =>
      after (parse G (.star a) t) (some .fail) fun qs u => some (.ok (ps ++ qs) u) := by
  apply parse_eq_of_eventually
  refine eventually_after (eventually_run G a s) (Eventually.of_forall fun _ => rfl) fun ps t => ?_
  exact eventually_after (eventually_run G (.star a) t) (Eventually.of_forall fun _ => rfl)
    fun _ _ => Eventually.of_forall fun _ => rfl

theorem parse_neg (a : Peg ρ) (s : List Char) :
    parse G (.neg a) s = after (parse G a s) (some (.ok [] s)) fun _ _ => some .fail := by
  apply parse_eq_of_eventually
  exact eventually_after (eventually_run G a s) (Eventually.of_forall fun _ => rfl)
    fun _ _ => Eventually.of_forall fun _ => rfl

theorem parse_call (r : ρ) (s : List Char) :
    parse G (.call r) s = after (parse G (G.body r) s) (some .fail) fun ps t =>
      some (.ok ((G.shape r).wrap r (consumed s t) ps) t) := by
  apply parse_eq_of_eventually
  exact eventually_after (eventually_run G (G.body r) s) (Eventually.of_forall fun _ => rfl)
    fun _ _ => Eventually.of_forall fun _ => rfl

end Equations

/-! ## Rules of derivation -/

section Rules

variable {ρ : Type} {G : Grammar ρ}

/-- The expression reads a prefix of `s`, leaves the nodes `ps` and the rest `t`. -/
def Reads (G : Grammar ρ) (e : Peg ρ) (s : List Char) (ps : List (Pair ρ)) (t : List Char) : Prop :=
  parse G e s = some (.ok ps t)

/-- The expression fails on `s`. -/
def Fails (G : Grammar ρ) (e : Peg ρ) (s : List Char) : Prop :=
  parse G e s = some .fail

theorem Reads.unique {e : Peg ρ} {s t u : List Char} {ps qs : List (Pair ρ)}
    (h : Reads G e s ps t) (h' : Reads G e s qs u) : ps = qs ∧ t = u := by
  have hsame := h.symm.trans h'
  simpa using hsame

theorem Reads.not_fails {e : Peg ρ} {s t : List Char} {ps : List (Pair ρ)} (h : Reads G e s ps t) :
    ¬ Fails G e s := by
  intro hfail
  have hsame := h.symm.trans hfail
  simp at hsame

theorem Reads.terminal {t : Terminal} {s rest : List Char} (h : t.strip s = some rest) :
    Reads G (.terminal t) s [] rest := by
  rw [Reads, parse_terminal, Terminal.outcome, h]

theorem Fails.terminal {t : Terminal} {s : List Char} (h : t.strip s = none) :
    Fails G (.terminal t) s := by
  rw [Fails, parse_terminal, Terminal.outcome, h]

theorem Reads.empty (s : List Char) : Reads G .empty s [] s :=
  Reads.terminal rfl

theorem Reads.seq {a b : Peg ρ} {s t u : List Char} {ps qs : List (Pair ρ)}
    (ha : Reads G a s ps t) (hb : Reads G b t qs u) : Reads G (.seq a b) s (ps ++ qs) u := by
  rw [Reads] at ha hb ⊢
  rw [parse_seq, ha, after_ok, hb, after_ok]

theorem Fails.seq_left {a : Peg ρ} (b : Peg ρ) {s : List Char} (ha : Fails G a s) :
    Fails G (.seq a b) s := by
  rw [Fails] at ha ⊢
  rw [parse_seq, ha, after_fail]

theorem Fails.seq_right {a b : Peg ρ} {s t : List Char} {ps : List (Pair ρ)}
    (ha : Reads G a s ps t) (hb : Fails G b t) : Fails G (.seq a b) s := by
  rw [Fails] at hb ⊢
  rw [Reads] at ha
  rw [parse_seq, ha, after_ok, hb, after_fail]

theorem Reads.choice_left {a : Peg ρ} (b : Peg ρ) {s t : List Char} {ps : List (Pair ρ)}
    (ha : Reads G a s ps t) : Reads G (.choice a b) s ps t := by
  rw [Reads] at ha ⊢
  rw [parse_choice, ha, after_ok]

theorem Reads.choice_right {a b : Peg ρ} {s t : List Char} {ps : List (Pair ρ)}
    (ha : Fails G a s) (hb : Reads G b s ps t) : Reads G (.choice a b) s ps t := by
  rw [Fails] at ha
  rw [Reads] at hb ⊢
  rw [parse_choice, ha, after_fail, hb]

theorem Fails.choice {a b : Peg ρ} {s : List Char} (ha : Fails G a s) (hb : Fails G b s) :
    Fails G (.choice a b) s := by
  rw [Fails] at ha hb ⊢
  rw [parse_choice, ha, after_fail, hb]

theorem Reads.opt_none {a : Peg ρ} {s : List Char} (ha : Fails G a s) : Reads G (.opt a) s [] s :=
  Reads.choice_right ha (Reads.empty s)

theorem Reads.opt_some {a : Peg ρ} {s t : List Char} {ps : List (Pair ρ)} (ha : Reads G a s ps t) :
    Reads G (.opt a) s ps t :=
  Reads.choice_left .empty ha

theorem Reads.star_stop {a : Peg ρ} {s : List Char} (ha : Fails G a s) :
    Reads G (.star a) s [] s := by
  rw [Fails] at ha
  rw [Reads, parse_star, ha, after_fail]

theorem Reads.star_step {a : Peg ρ} {s t u : List Char} {ps qs : List (Pair ρ)}
    (ha : Reads G a s ps t) (hs : Reads G (.star a) t qs u) :
    Reads G (.star a) s (ps ++ qs) u := by
  rw [Reads] at ha hs ⊢
  rw [parse_star, ha, after_ok, hs, after_ok]

theorem Reads.call {r : ρ} {s t : List Char} {ps : List (Pair ρ)} (h : Reads G (G.body r) s ps t) :
    Reads G (.call r) s ((G.shape r).wrap r (consumed s t) ps) t := by
  rw [Reads] at h ⊢
  rw [parse_call, h, after_ok]

theorem Fails.call {r : ρ} {s : List Char} (h : Fails G (G.body r) s) : Fails G (.call r) s := by
  rw [Fails] at h ⊢
  rw [parse_call, h, after_fail]

/-- The cases in which a continued expression succeeds. -/
theorem after_eq_ok {o failed : Option (Outcome ρ)}
    {continued : List (Pair ρ) → List Char → Option (Outcome ρ)} {qs : List (Pair ρ)}
    {u : List Char} (h : after o failed continued = some (.ok qs u)) :
    (o = some .fail ∧ failed = some (.ok qs u)) ∨
      ∃ ps t, o = some (.ok ps t) ∧ continued ps t = some (.ok qs u) := by
  cases o with
  | none => simp at h
  | some out =>
    cases out with
    | fail => exact .inl ⟨rfl, h⟩
    | ok ps t => exact .inr ⟨ps, t, rfl, h⟩

/-- The cases in which a continued expression fails. -/
theorem after_eq_fail {o failed : Option (Outcome ρ)}
    {continued : List (Pair ρ) → List Char → Option (Outcome ρ)}
    (h : after o failed continued = some .fail) :
    (o = some .fail ∧ failed = some .fail) ∨
      ∃ ps t, o = some (.ok ps t) ∧ continued ps t = some .fail := by
  cases o with
  | none => simp at h
  | some out =>
    cases out with
    | fail => exact .inl ⟨rfl, h⟩
    | ok ps t => exact .inr ⟨ps, t, rfl, h⟩

theorem Reads.seq_inv {a b : Peg ρ} {s u : List Char} {rs : List (Pair ρ)}
    (h : Reads G (.seq a b) s rs u) :
    ∃ ps t qs, Reads G a s ps t ∧ Reads G b t qs u ∧ rs = ps ++ qs := by
  rw [Reads, parse_seq] at h
  rcases after_eq_ok h with ⟨-, h⟩ | ⟨ps, t, ha, h⟩
  · simp at h
  rcases after_eq_ok h with ⟨-, h⟩ | ⟨qs, u', hb, h⟩
  · simp at h
  simp only [Option.some.injEq, Outcome.ok.injEq] at h
  obtain ⟨rfl, rfl⟩ := h
  exact ⟨ps, t, qs, ha, hb, rfl⟩

theorem Fails.seq_inv {a b : Peg ρ} {s : List Char} (h : Fails G (.seq a b) s) :
    Fails G a s ∨ ∃ ps t, Reads G a s ps t ∧ Fails G b t := by
  rw [Fails, parse_seq] at h
  rcases after_eq_fail h with ⟨ha, -⟩ | ⟨ps, t, ha, h⟩
  · exact .inl ha
  rcases after_eq_fail h with ⟨hb, -⟩ | ⟨qs, u, -, h⟩
  · exact .inr ⟨ps, t, ha, hb⟩
  · simp at h

theorem Reads.choice_inv {a b : Peg ρ} {s t : List Char} {ps : List (Pair ρ)}
    (h : Reads G (.choice a b) s ps t) : Reads G a s ps t ∨ (Fails G a s ∧ Reads G b s ps t) := by
  rw [Reads, parse_choice] at h
  rcases after_eq_ok h with ⟨ha, hb⟩ | ⟨qs, u, ha, h⟩
  · exact .inr ⟨ha, hb⟩
  · exact .inl (ha.trans h)

theorem Fails.choice_inv {a b : Peg ρ} {s : List Char} (h : Fails G (.choice a b) s) :
    Fails G a s ∧ Fails G b s := by
  rw [Fails, parse_choice] at h
  rcases after_eq_fail h with ⟨ha, hb⟩ | ⟨qs, u, -, h⟩
  · exact ⟨ha, hb⟩
  · simp at h

theorem Reads.call_inv {r : ρ} {s t : List Char} {qs : List (Pair ρ)}
    (h : Reads G (.call r) s qs t) :
    ∃ ps, Reads G (G.body r) s ps t ∧ qs = (G.shape r).wrap r (consumed s t) ps := by
  rw [Reads, parse_call] at h
  rcases after_eq_ok h with ⟨-, h⟩ | ⟨ps, u, hbody, h⟩
  · simp at h
  simp only [Option.some.injEq, Outcome.ok.injEq] at h
  obtain ⟨rfl, rfl⟩ := h
  exact ⟨ps, hbody, rfl⟩

theorem Fails.call_inv {r : ρ} {s : List Char} (h : Fails G (.call r) s) :
    Fails G (G.body r) s := by
  rw [Fails, parse_call] at h
  rcases after_eq_fail h with ⟨hbody, -⟩ | ⟨ps, t, -, h⟩
  · exact hbody
  · simp at h

theorem not_fails_opt (a : Peg ρ) (s : List Char) : ¬ Fails G (.opt a) s := fun h =>
  (Reads.empty s).not_fails h.choice_inv.2

/-- A repetition ends where its body fails. -/
theorem Reads.star_ends {a : Peg ρ} {s t : List Char} {ps : List (Pair ρ)}
    (h : Reads G (.star a) s ps t) : Fails G a t := by
  obtain ⟨n, hn⟩ := exists_run_of_parse h
  clear h
  induction n generalizing s ps with
  | zero => simp [run] at hn
  | succ n ih =>
    rcases after_eq_ok hn with ⟨ha, h⟩ | ⟨qs, u, -, h⟩
    · simp only [Option.some.injEq, Outcome.ok.injEq] at h
      obtain ⟨-, rfl⟩ := h
      exact parse_of_run ha
    rcases after_eq_ok h with ⟨-, h⟩ | ⟨qs', u', hstar, h⟩
    · simp at h
    simp only [Option.some.injEq, Outcome.ok.injEq] at h
    obtain ⟨-, rfl⟩ := h
    exact ih hstar

theorem not_fails_star (a : Peg ρ) (s : List Char) : ¬ Fails G (.star a) s := by
  intro h
  obtain ⟨n, hn⟩ := exists_run_of_parse h
  clear h
  induction n generalizing s with
  | zero => simp [run] at hn
  | succ n ih =>
    rcases after_eq_fail hn with ⟨-, h⟩ | ⟨ps, t, -, h⟩
    · simp at h
    rcases after_eq_fail h with ⟨hstar, -⟩ | ⟨qs, u, -, h⟩
    · exact ih t hstar
    · simp at h

/-- The texts that the iterations of a repetition of two parts read, up to the end of the
repetition: in each of them what the first and what the second part read. -/
inductive Repeats (G : Grammar ρ) (a b : Peg ρ) :
    List Char → List (List Char × List Char) → List Char → Prop
  | stop {s : List Char} : Fails G (.seq a b) s → Repeats G a b s [] s
  | step {s t u v : List Char} {ps qs : List (Pair ρ)} {gs : List (List Char × List Char)} :
      Reads G a s ps t → Reads G b t qs u → Repeats G a b u gs v →
      Repeats G a b s ((consumed s t, consumed t u) :: gs) v

/-- Such iterations make up a repetition. -/
theorem Repeats.reads {a b : Peg ρ} {s t : List Char} {gs : List (List Char × List Char)}
    (h : Repeats G a b s gs t) : ∃ ps, Reads G (.star (.seq a b)) s ps t := by
  induction h with
  | stop hfail => exact ⟨[], Reads.star_stop hfail⟩
  | step ha hb _ ih =>
    obtain ⟨ps, hread⟩ := ih
    exact ⟨_, Reads.star_step (Reads.seq ha hb) hread⟩

/-- With a first iteration they are one or more. -/
theorem Repeats.reads_some {a b : Peg ρ} {s t : List Char} {g : List Char × List Char}
    {gs : List (List Char × List Char)} (h : Repeats G a b s (g :: gs) t) :
    ∃ ps, Reads G (.seq (.seq a b) (.star (.seq a b))) s ps t := by
  generalize hgroups : g :: gs = all at h
  cases h with
  | stop hfail => cases hgroups
  | step ha hb hrest =>
    obtain ⟨ps, hread⟩ := hrest.reads
    exact ⟨_, Reads.seq (Reads.seq ha hb) hread⟩

/-- Nothing of the class `p` comes first. -/
def Stops (p : Char → Bool) (s : List Char) : Prop :=
  ∀ c ∈ s.head?, p c = false

@[simp]
theorem stops_nil (p : Char → Bool) : Stops p [] := by simp [Stops]

@[simp]
theorem stops_cons (p : Char → Bool) (c : Char) (s : List Char) :
    Stops p (c :: s) ↔ p c = false := by simp [Stops]

theorem Stops.mono {p q : Char → Bool} {s : List Char} (h : Stops p s)
    (hpq : ∀ c, q c = true → p c = true) : Stops q s := by
  intro c hc
  by_contra hq
  have hp := h c hc
  rw [hpq c (by simpa using hq)] at hp
  exact absurd hp (by decide)

/-- A repetition of one character of a class reads all of them. -/
theorem Reads.star_class {a : Peg ρ} {p : Char → Bool}
    (hone : ∀ c s, p c = true → Reads G a (c :: s) [] s) (hstop : ∀ s, Stops p s → Fails G a s)
    {rest : List Char} (hrest : Stops p rest) {text : List Char} (htext : text.all p = true) :
    Reads G (.star a) (text ++ rest) [] rest := by
  induction text with
  | nil => exact Reads.star_stop (hstop rest hrest)
  | cons c text ih =>
    simp only [List.all_cons, Bool.and_eq_true] at htext
    exact Reads.star_step (hone c _ htext.1) (ih htext.2)

end Rules

/-! ## Progress -/

section Progress

variable {ρ : Type} {G : Grammar ρ}

/-- What is left of an input after a part of it was read: a suffix, and a shorter one where the
part cannot be empty. -/
def Left (mayBeEmpty : Bool) (s rest : List Char) : Prop :=
  rest <:+ s ∧ (mayBeEmpty = false → rest.length < s.length)

theorem Left.length_le {b : Bool} {s rest : List Char} (h : Left b s rest) :
    rest.length ≤ s.length :=
  h.1.length_le

theorem Left.weaken {b b' : Bool} {s rest : List Char} (h : Left b s rest)
    (hb : b = true → b' = true) : Left b' s rest := by
  refine ⟨h.1, fun hb' => h.2 ?_⟩
  cases b with
  | false => rfl
  | true => rw [hb rfl] at hb'; exact absurd hb' (by decide)

theorem Left.trans {a b : Bool} {s t u : List Char} (hs : Left a s t) (ht : Left b t u) :
    Left (a && b) s u := by
  refine ⟨ht.1.trans hs.1, fun hab => ?_⟩
  have hst := hs.length_le
  have htu := ht.length_le
  cases a with
  | false => have := hs.2 rfl; omega
  | true => have := ht.2 (by simpa using hab); omega

theorem afterPrefix_left (same : Char → Char → Bool) (cs : List Char) :
    ∀ (s rest : List Char), afterPrefix same cs s = some rest → Left cs.isEmpty s rest := by
  induction cs with
  | nil =>
    intro s rest h
    simp only [afterPrefix, Option.some.injEq] at h
    subst h
    exact ⟨List.suffix_rfl, by simp⟩
  | cons c cs ih =>
    intro s rest h
    cases s with
    | nil => simp [afterPrefix] at h
    | cons d s =>
      simp only [afterPrefix] at h
      split at h
      · have hleft := ih s rest h
        refine ⟨hleft.1.trans (List.suffix_cons d s), fun _ => ?_⟩
        have := hleft.length_le
        simp only [List.length_cons]
        omega
      · simp at h

theorem Terminal.left (null : ρ → Bool) (t : Terminal) {s rest : List Char}
    (h : t.strip s = some rest) : Left ((Peg.terminal t).nullable null) s rest := by
  cases t with
  | exact cs => exact afterPrefix_left _ cs s rest h
  | anyCase cs => exact afterPrefix_left _ cs s rest h
  | satisfying p =>
    cases s with
    | nil => simp [Terminal.strip] at h
    | cons c s =>
      simp only [Terminal.strip] at h
      split at h
      · cases h
        exact ⟨List.suffix_cons c _, fun _ => by simp⟩
      · simp at h

theorem run_left (n : Nat) : ∀ (e : Peg ρ) (s : List Char) (ps : List (Pair ρ)) (rest : List Char),
    run G n e s = some (.ok ps rest) → Left (e.nullable G.nullable) s rest := by
  -- on the fuel: each case reads the parts of the expression in turn
  induction n with
  | zero =>
    intro e s ps rest h
    simp [run] at h
  | succ n ih =>
    intro e s ps rest h
    cases e with
    | terminal t =>
      simp only [run, Terminal.outcome] at h
      cases hstrip : t.strip s with
      | none => simp [hstrip] at h
      | some u =>
        simp only [hstrip, Option.some.injEq, Outcome.ok.injEq] at h
        obtain ⟨-, rfl⟩ := h
        exact t.left G.nullable hstrip
    | seq a b =>
      rcases after_eq_ok h with ⟨-, h⟩ | ⟨ps', t, ha, h⟩
      · simp at h
      rcases after_eq_ok h with ⟨-, h⟩ | ⟨qs, u, hb, h⟩
      · simp at h
      simp only [Option.some.injEq, Outcome.ok.injEq] at h
      obtain ⟨-, rfl⟩ := h
      exact (ih a s ps' t ha).trans (ih b t qs u hb)
    | choice a b =>
      rcases after_eq_ok h with ⟨-, h⟩ | ⟨ps', t, ha, h⟩
      · exact (ih b s ps rest h).weaken fun hb => by simp [Peg.nullable, hb]
      · simp only [Option.some.injEq, Outcome.ok.injEq] at h
        obtain ⟨-, rfl⟩ := h
        exact (ih a s ps' t ha).weaken fun hb => by simp [Peg.nullable, hb]
    | star a =>
      rcases after_eq_ok h with ⟨-, h⟩ | ⟨ps', t, ha, h⟩
      · simp only [Option.some.injEq, Outcome.ok.injEq] at h
        obtain ⟨-, rfl⟩ := h
        exact ⟨List.suffix_rfl, by simp [Peg.nullable]⟩
      rcases after_eq_ok h with ⟨-, h⟩ | ⟨qs, u, hb, h⟩
      · simp at h
      simp only [Option.some.injEq, Outcome.ok.injEq] at h
      obtain ⟨-, rfl⟩ := h
      exact ((ih a s ps' t ha).trans (ih (.star a) t qs u hb)).weaken fun _ => rfl
    | neg a =>
      rcases after_eq_ok h with ⟨-, h⟩ | ⟨ps', t, ha, h⟩
      · simp only [Option.some.injEq, Outcome.ok.injEq] at h
        obtain ⟨-, rfl⟩ := h
        exact ⟨List.suffix_rfl, by simp [Peg.nullable]⟩
      · simp at h
    | call r =>
      rcases after_eq_ok h with ⟨-, h⟩ | ⟨ps', t, ha, h⟩
      · simp at h
      · simp only [Option.some.injEq, Outcome.ok.injEq] at h
        obtain ⟨-, rfl⟩ := h
        exact (ih (G.body r) s ps' t ha).weaken (G.nullable_body r)

/-- A success leaves a suffix of the input, and a proper one where the expression reads
something. -/
theorem parse_left {e : Peg ρ} {s : List Char} {ps : List (Pair ρ)} {rest : List Char}
    (h : parse G e s = some (.ok ps rest)) : Left (e.nullable G.nullable) s rest := by
  obtain ⟨n, hn⟩ := exists_run_of_parse h
  exact run_left n e s ps rest hn

end Progress

/-! ## Totality -/

section Totality

variable {ρ : Type} {G : Grammar ρ}

theorem after_total {o failed : Option (Outcome ρ)}
    {continued : List (Pair ρ) → List Char → Option (Outcome ρ)} (ho : ∃ r, o = some r)
    (hf : ∃ r, failed = some r)
    (hc : ∀ ps t, o = some (.ok ps t) → ∃ r, continued ps t = some r) :
    ∃ r, after o failed continued = some r := by
  obtain ⟨out, rfl⟩ := ho
  cases out with
  | fail => exact hf
  | ok ps t => exact hc ps t rfl

theorem guarded_mono {null : ρ → Bool} {rank : ρ → Nat} {bound : Nat} (e : Peg ρ) :
    ∀ {k k' : Nat}, k ≤ k' → e.guarded null rank bound k = true →
      e.guarded null rank bound k' = true := by
  induction e with
  | terminal t => exact fun _ h => h
  | seq a b iha ihb =>
    intro k k' hle h
    simp only [Peg.guarded, Bool.and_eq_true] at h ⊢
    refine ⟨iha hle h.1, ihb ?_ h.2⟩
    split
    · exact hle
    · exact Nat.le_refl _
  | choice a b iha ihb =>
    intro k k' hle h
    simp only [Peg.guarded, Bool.and_eq_true] at h ⊢
    exact ⟨iha hle h.1, ihb hle h.2⟩
  | star a iha =>
    intro k k' hle h
    simp only [Peg.guarded, Bool.and_eq_true] at h ⊢
    exact ⟨iha hle h.1, h.2⟩
  | neg a iha =>
    intro k k' hle h
    exact iha hle h
  | call r =>
    intro k k' hle h
    simp only [Peg.guarded, decide_eq_true_eq] at h ⊢
    omega

/-- Totality at one input, where every expression is total on each shorter input and the rules of
lower rank are total on this one. -/
theorem parse_total_at {s : List Char} {k : Nat} (hk : k ≤ G.bound)
    (hshort : ∀ (e : Peg ρ) (t : List Char), t.length < s.length →
      e.guarded G.nullable G.rank G.bound G.bound = true → ∃ r, parse G e t = some r)
    (hlow : ∀ r, G.rank r < k → ∃ out, parse G (.call r) s = some out) (e : Peg ρ)
    (h : e.guarded G.nullable G.rank G.bound k = true) : ∃ r, parse G e s = some r := by
  -- on the expression; only a rule call leaves it, for one of lower rank
  induction e with
  | terminal t => exact ⟨_, parse_terminal t s⟩
  | seq a b iha ihb =>
    simp only [Peg.guarded, Bool.and_eq_true] at h
    rw [parse_seq]
    refine after_total (iha h.1) ⟨_, rfl⟩ fun ps t ha => ?_
    refine after_total ?_ ⟨_, rfl⟩ fun _ _ _ => ⟨_, rfl⟩
    have hleft := parse_left ha
    by_cases hlt : t.length < s.length
    · -- something was read, so the second part starts on a shorter input
      refine hshort b t hlt (guarded_mono b ?_ h.2)
      split
      · exact hk
      · exact Nat.le_refl _
    · -- nothing was read: the first part may be empty and the second starts at the same place
      have hempty : a.nullable G.nullable = true := by
        by_contra hne
        exact hlt (hleft.2 (by simpa using hne))
      have hsame : t = s := hleft.1.eq_of_length (Nat.le_antisymm hleft.length_le (by omega))
      rw [hsame]
      exact ihb (by simpa [hempty] using h.2)
  | choice a b iha ihb =>
    simp only [Peg.guarded, Bool.and_eq_true] at h
    rw [parse_choice]
    exact after_total (iha h.1) (ihb h.2) fun _ _ _ => ⟨_, rfl⟩
  | star a iha =>
    rw [parse_star]
    have hparts : a.guarded G.nullable G.rank G.bound k = true ∧
        (!a.nullable G.nullable) = true := by
      simpa only [Peg.guarded, Bool.and_eq_true] using h
    refine after_total (iha hparts.1) ⟨_, rfl⟩ fun ps t ha => ?_
    refine after_total ?_ ⟨_, rfl⟩ fun _ _ _ => ⟨_, rfl⟩
    -- each repetition reads something, as the repeated part is never empty
    have hlt := (parse_left ha).2 (by simpa using hparts.2)
    exact hshort (.star a) t hlt (guarded_mono _ hk h)
  | neg a iha =>
    rw [parse_neg]
    exact after_total (iha h) ⟨_, rfl⟩ fun _ _ _ => ⟨_, rfl⟩
  | call r =>
    exact hlow r (by simpa [Peg.guarded] using h)

/-- Every expression that is guarded like the rule bodies gives a result on every input. -/
theorem parse_total (G : Grammar ρ) (e : Peg ρ) (s : List Char)
    (h : e.guarded G.nullable G.rank G.bound G.bound = true) : ∃ r, parse G e s = some r := by
  -- on the length of the input, and for one length on the rank of the rules that are called
  induction hn : s.length using Nat.strong_induction_on generalizing e s with
  | _ n ih =>
    subst hn
    have hrules : ∀ k ≤ G.bound, ∀ r, G.rank r < k → ∃ out, parse G (.call r) s = some out := by
      intro k
      induction k with
      | zero => exact fun _ r hr => absurd hr (Nat.not_lt_zero _)
      | succ k ihk =>
        intro hk r hr
        rw [parse_call]
        refine after_total ?_ ⟨_, rfl⟩ fun _ _ _ => ⟨_, rfl⟩
        apply parse_total_at (k := k) (by omega) (fun e t hlt he => ih _ hlt e t he rfl)
          (ihk (by omega))
        exact guarded_mono _ (by omega) (G.guarded_body r)
    exact parse_total_at (Nat.le_refl _) (fun e t hlt he => ih _ hlt e t he rfl)
      (hrules G.bound (Nat.le_refl _)) e h

/-- Such an expression reads something or fails. -/
theorem reads_or_fails (G : Grammar ρ) (e : Peg ρ) (s : List Char)
    (h : e.guarded G.nullable G.rank G.bound G.bound = true) :
    (∃ ps t, Reads G e s ps t) ∨ Fails G e s := by
  obtain ⟨out, hout⟩ := parse_total G e s h
  cases out with
  | fail => exact .inr hout
  | ok ps t => exact .inl ⟨ps, t, hout⟩

/-- A sequence fails where its second part fails at every end of the first. -/
theorem Fails.after {a b : Peg ρ} {s : List Char}
    (ha : a.guarded G.nullable G.rank G.bound G.bound = true)
    (h : ∀ ps t, t <:+ s → Reads G a s ps t → Fails G b t) : Fails G (.seq a b) s := by
  rcases reads_or_fails G a s ha with ⟨ps, t, hread⟩ | hfail
  · exact Fails.seq_right hread (h ps t (parse_left hread).1 hread)
  · exact Fails.seq_left b hfail

end Totality

end VirtualPlc.Parsing
